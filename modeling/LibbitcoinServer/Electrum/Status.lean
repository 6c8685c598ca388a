import LibbitcoinServer.Store.Archive
import LibbitcoinServer.Lib.Run

/-! # The status of a script hash

A subscription keeps a midstate of its confirmed history, the cursor it has read to
and the status it computed last, so that a call writes only what is new.  The
status is that of the whole history as long as no call finds nothing new after
unconfirmed entries that the status covers have gone: there the early return on an
empty delta leaves the status as it was.
-/

namespace LibbitcoinServer.Electrum

/-- The digests of the system library: `null_hash`, `sha256` and `encode_hash`. -/
structure Hashing (Digest : Type) where
  null : Digest
  sha256 : String → Digest
  encodeHash : Digest → String

inductive NotifyType where
  | address
  | scripthash
  | scriptpubkey
  deriving DecidableEq

/-- An `address_subscription`.  The midstate is the text written into it. -/
structure AddressSubscription (Digest : Type) where
  type : NotifyType
  cursor : Cursor
  status : Digest
  accumulator : String
  deriving DecidableEq

def toSigned (height : Nat) : Int := (BitVec.ofNat 64 height).toInt

variable {Digest : Type} (hashing : Hashing Digest)

def writeStatus (accumulator : String) (history : History Digest) : String :=
  accumulator ++ hashing.encodeHash history.hash ++ ":" ++ toString (toSigned history.height) ++ ":"

def AddressSubscription.initial (type : NotifyType) : AddressSubscription Digest :=
  ⟨type, none, hashing.null, ""⟩

/-- `get_scripthash_history`, with the subscription it leaves where it succeeds. -/
def getScripthashHistory (archive : Archive Digest) (sub : AddressSubscription Digest)
    (hash : Digest) (limit : Nat) : Except Code (AddressSubscription Digest) :=
  match archive.getHistory sub.cursor hash limit with
  | .error code => .error code
  | .ok (cursor, history) =>
      let sub := { sub with cursor }
      if history.isEmpty then .ok sub
      else
        let accumulator := (history.takeWhile (·.confirmed)).foldl (writeStatus hashing)
          sub.accumulator
        let copy := (history.dropWhile (·.confirmed)).foldl (writeStatus hashing) accumulator
        .ok { sub with accumulator, status := hashing.sha256 copy }

/-- `do_reorganized` at one subscription. -/
def AddressSubscription.reorganized (sub : AddressSubscription Digest) :
    AddressSubscription Digest :=
  { sub with accumulator := "", status := hashing.null, cursor := none }

/-- The text of a history. -/
def textOf (entries : List (History Digest)) : String :=
  entries.foldl (writeStatus hashing) ""

/-- The status of a history from scratch. -/
def statusOf (entries : List (History Digest)) : Digest :=
  if entries.isEmpty then hashing.null else hashing.sha256 (textOf hashing entries)

variable {hashing} {entries later : List (History Digest)}

theorem foldl_writeStatus {accumulator : String} :
    entries.foldl (writeStatus hashing) accumulator =
      accumulator ++ textOf hashing entries := by
  induction entries using List.reverseRecOn with
  | nil => simp [textOf]
  | append_singleton rest entry ih =>
      simp only [textOf, List.foldl_append, List.foldl_cons, List.foldl_nil] at ih ⊢
      simp only [ih, writeStatus, String.append_assoc]

theorem textOf_append :
    textOf hashing (entries ++ later) = textOf hashing entries ++ textOf hashing later := by
  rw [textOf, List.foldl_append, foldl_writeStatus]
  rfl

variable {archive : Archive Digest} {sub : AddressSubscription Digest} {hash : Digest}
  {limit : Nat} {store : ScriptHistory Digest}

theorem getScripthashHistory_ok (hashing : Hashing Digest) {answer : Cursor × List (History Digest)}
    (served : archive.getHistory sub.cursor hash limit = .ok answer) :
    ∃ after, getScripthashHistory hashing archive sub hash limit = .ok after := by
  simp only [getScripthashHistory, served]
  split_ifs
  · exact ⟨_, rfl⟩
  · exact ⟨_, rfl⟩

/-- A served history is confirmed entries, then unconfirmed ones. -/
theorem takeWhile_since {cursor : Cursor} :
    (store.since cursor).takeWhile (·.confirmed) =
      store.confirmed.filter (·.above cursor) := by
  have settled : ∀ entry ∈ store.confirmed.filter (·.above cursor), entry.confirmed :=
    fun entry member => (store.settled entry (List.mem_of_mem_filter member)).1
  rw [ScriptHistory.since, List.takeWhile_append_of_pos settled]
  cases bare : store.unconfirmed with
  | nil => simp
  | cons first rest => simp [store.pending first (by simp [bare])]

theorem dropWhile_since {cursor : Cursor} :
    (store.since cursor).dropWhile (·.confirmed) = store.unconfirmed := by
  have settled : ∀ entry ∈ store.confirmed.filter (·.above cursor), entry.confirmed :=
    fun entry member => (store.settled entry (List.mem_of_mem_filter member)).1
  rw [ScriptHistory.since, List.dropWhile_append_of_pos settled]
  cases bare : store.unconfirmed with
  | nil => rfl
  | cons first rest => simp [store.pending first (by simp [bare])]

/-- What a successful call leaves, against the history that the archive serves. -/
theorem getScripthashHistory_cases (serves : archive.Serves hash store)
    {after : AddressSubscription Digest}
    (called : getScripthashHistory hashing archive sub hash limit = .ok after) :
    store.Past after.cursor ∧ (store.Within sub.cursor → store.Within after.cursor) ∧
      ((store.since sub.cursor = [] ∧ after.accumulator = sub.accumulator ∧
          after.status = sub.status) ∨
        (store.since sub.cursor ≠ [] ∧
          after.accumulator = sub.accumulator ++
            textOf hashing (store.confirmed.filter (·.above sub.cursor)) ∧
          after.status = hashing.sha256 (sub.accumulator ++
            textOf hashing (store.since sub.cursor)))) := by
  unfold getScripthashHistory at called
  cases answer : archive.getHistory sub.cursor hash limit with
  | error code => simp [answer] at called
  | ok served =>
      obtain ⟨cursor, history⟩ := served
      have returned := serves.returns answer
      subst returned
      simp only [answer] at called
      split_ifs at called with bare
      · obtain rfl := Except.ok.inj called
        exact ⟨serves.advances answer, fun within => serves.within within answer,
          .inl ⟨by simpa using bare, rfl, rfl⟩⟩
      · obtain rfl := Except.ok.inj called
        refine ⟨serves.advances answer, fun within => serves.within within answer,
          .inr ⟨by simpa using bare, ?_, ?_⟩⟩
        · simp only [takeWhile_since, foldl_writeStatus]
        · simp only [takeWhile_since, dropWhile_since, foldl_writeStatus, String.append_assoc]
          rw [← textOf_append, ScriptHistory.since]

/-- One subscription and the history of its hash.  `covered` is the unconfirmed tail
    of the status computed last. -/
structure Watch (Digest : Type) where
  sub : AddressSubscription Digest
  store : ScriptHistory Digest
  covered : List (History Digest)

namespace Watch

/-- The history grows or its unconfirmed entries change, the history is reduced and
    `do_reorganized` runs, or `get_scripthash_history` is called. -/
inductive Event (Digest : Type) where
  | change (store : ScriptHistory Digest)
  | reorganize (store : ScriptHistory Digest)
  | call (archive : Archive Digest) (limit : Nat)

variable (hashing) (hash) in
def step (watch : Watch Digest) : Event Digest → Watch Digest
  | .change store => { watch with store }
  | .reorganize store => ⟨watch.sub.reorganized hashing, store, []⟩
  | .call archive limit =>
      match getScripthashHistory hashing archive watch.sub hash limit with
      | .error _ => watch
      | .ok sub => { watch with
          sub
          covered := if (watch.store.since watch.sub.cursor).isEmpty then watch.covered
            else watch.store.unconfirmed }

variable (hashing) in
def start (type : NotifyType) (store : ScriptHistory Digest) : Watch Digest :=
  ⟨.initial hashing type, store, []⟩

variable (hash) in
/-- What the store and the archive allow. -/
def Allowed (watch : Watch Digest) : Event Digest → Prop
  | .change store => watch.store.Extends store
  | .reorganize _ => True
  | .call archive _ => archive.Serves hash watch.store

/-- A call that finds nothing new follows a status without an unconfirmed tail. -/
def Current (watch : Watch Digest) : Event Digest → Prop
  | .call _ _ => watch.store.since watch.sub.cursor = [] → watch.covered = []
  | _ => True

variable (hashing) in
/-- The four parts of a subscription agree on what has been read. -/
structure Consistent (watch : Watch Digest) : Prop where
  within : watch.store.Within watch.sub.cursor
  accumulated : watch.sub.accumulator = textOf hashing (watch.store.read watch.sub.cursor)
  status : watch.sub.status =
    statusOf hashing (watch.store.read watch.sub.cursor ++ watch.covered)

theorem consistent_start {type : NotifyType} : (start hashing type store).Consistent hashing where
  within := by intro height same; cases same
  accumulated := by simp [start, AddressSubscription.initial, textOf]
  status := by simp [start, AddressSubscription.initial, statusOf]

variable {watch : Watch Digest} {event : Event Digest}

/-- A successful call leaves the status of the whole history. -/
theorem Consistent.call (consistent : watch.Consistent hashing)
    (serves : archive.Serves hash watch.store)
    (current : watch.store.since watch.sub.cursor = [] → watch.covered = [])
    {after : AddressSubscription Digest}
    (called : getScripthashHistory hashing archive watch.sub hash limit = .ok after) :
    after.accumulator = textOf hashing watch.store.confirmed ∧
      after.status = statusOf hashing watch.store.entries := by
  have split := watch.store.read_append_above watch.sub.cursor
  obtain ⟨-, -, ⟨nothing, accumulated, status⟩ | ⟨something, accumulated, status⟩⟩ :=
    getScripthashHistory_cases serves called
  · obtain ⟨unread, bare⟩ := List.append_eq_nil_iff.mp nothing
    rw [unread, List.append_nil] at split
    refine ⟨by rw [accumulated, consistent.accumulated, split], ?_⟩
    rw [status, consistent.status, split, current nothing, ScriptHistory.entries, bare]
  · refine ⟨by rw [accumulated, consistent.accumulated, ← textOf_append, split], ?_⟩
    have whole : watch.store.read watch.sub.cursor ++ watch.store.since watch.sub.cursor =
        watch.store.entries := by
      rw [ScriptHistory.since, ← List.append_assoc, split, ScriptHistory.entries]
    have nonempty : watch.store.entries ≠ [] := by
      rw [← whole]
      exact fun bare => something (List.append_eq_nil_iff.mp bare).2
    rw [status, consistent.accumulated, ← textOf_append, whole, statusOf]
    simp [nonempty]

theorem consistent_step (consistent : watch.Consistent hashing)
    (allowed : watch.Allowed hash event) (current : watch.Current event) :
    (watch.step hashing hash event).Consistent hashing := by
  cases event with
  | change store =>
      have same := allowed.read consistent.within
      exact ⟨allowed.within consistent.within, by
        simpa [step, same] using consistent.accumulated, by
        simpa [step, same] using consistent.status⟩
  | reorganize store =>
      refine ⟨?_, ?_, ?_⟩
      · intro height same
        cases same
      · simp [step, AddressSubscription.reorganized, textOf]
      · simp [step, AddressSubscription.reorganized, statusOf]
  | call archive limit =>
      simp only [step]
      cases called : getScripthashHistory hashing archive watch.sub hash limit with
      | error code => exact consistent
      | ok after =>
          obtain ⟨accumulated, status⟩ := consistent.call allowed current called
          obtain ⟨past, within, -⟩ := getScripthashHistory_cases allowed called
          refine ⟨within consistent.within, ?_, ?_⟩
          · simp only [accumulated, ScriptHistory.read_past past]
          · simp only [status, ScriptHistory.read_past past, ScriptHistory.entries]
            split_ifs with nothing
            · have bare : watch.store.since watch.sub.cursor = [] := by simpa using nothing
              rw [current bare, (List.append_eq_nil_iff.mp bare).2]
            · rfl

/-- In a run where no call finds nothing new after a status with an unconfirmed
    tail, every successful call leaves the status of the whole history, which is
    also that of a new subscription. -/
theorem status_after_call (hashing : Hashing Digest) (hash : Digest) (type : NotifyType)
    (store : ScriptHistory Digest) (events : List (Event Digest))
    (allowed : ∀ visit ∈ Run.steps (step hashing hash) (start hashing type store) events,
      visit.1.Allowed hash visit.2)
    (current : ∀ visit ∈ Run.steps (step hashing hash) (start hashing type store) events,
      visit.1.Current visit.2) :
    ∀ visit ∈ Run.steps (step hashing hash) (start hashing type store) events,
      ∀ archive limit after, visit.2 = .call archive limit →
        getScripthashHistory hashing archive visit.1.sub hash limit = .ok after →
          (visit.1.step hashing hash visit.2).sub = after ∧
            after.status = statusOf hashing visit.1.store.entries ∧
            ∀ other maximum scratch, getScripthashHistory hashing archive
              (.initial hashing other) hash maximum = .ok scratch →
                scratch.status = after.status := by
  intro visit member archive limit after calling called
  have consistent := Run.invariant_steps
    (fun watch => watch.Consistent hashing)
    (fun watch event => watch.Allowed hash event ∧ watch.Current event)
    (fun watch event consistent met => consistent_step consistent met.1 met.2) consistent_start
    (fun visit member => ⟨allowed visit member, current visit member⟩) visit member
  have serves := allowed visit member
  have follows := current visit member
  rw [calling] at serves follows ⊢
  have status := (consistent.call serves follows called).2
  refine ⟨by simp [step, called], status, ?_⟩
  intro other maximum scratch made
  have fresh : (start hashing other visit.1.store).Consistent hashing := consistent_start
  rw [status, (fresh.call serves (fun _ => rfl) made).2]
  rfl

section Eviction

/-- Hex digits, most significant first. -/
def encodeNat (digest : Nat) : String :=
  let digits := Nat.toDigits 16 digest
  String.ofList (List.replicate (64 - digits.length) '0' ++ digits)

/-- Digests as numbers, with `sha256` of the one text written below. -/
def sampleHashing : Hashing Nat where
  null := 0
  sha256 text :=
    if text = "0000000000000000000000000000000000000000000000000000000000000001:0:"
      then 0xf5b919a35884932755c3d0f3786e896b86810afa34b2ce999d254bdf2c629224 else 0
  encodeHash := encodeNat

/-- A history of one transaction in the memory pool. -/
def pooled : ScriptHistory Nat where
  top := 100
  confirmed := []
  unconfirmed := [⟨1, 0, 500, 0, false⟩]
  settled := by simp
  ordered := .nil
  pending := by simp

/-- The same after its eviction. -/
def evicted : ScriptHistory Nat where
  top := 100
  confirmed := []
  unconfirmed := []
  settled := by simp
  ordered := .nil
  pending := by simp

/-- A call, an event that leaves no history, and a call again. -/
def emptied (event : Event Nat) : List (Event Nat) :=
  [.call (pooled.archive 7) 1000, event, .call (evicted.archive 7) 1000]

/-- The subscription after the first call. -/
def pooledSub : AddressSubscription Nat :=
  ⟨.scripthash, some 100, 0xf5b919a35884932755c3d0f3786e896b86810afa34b2ce999d254bdf2c629224, ""⟩

theorem emptied_allowed {event : Event Nat} (change : event = .change evicted ∨
      event = .reorganize evicted) :
    ∀ visit ∈ Run.steps (step sampleHashing 7) (start sampleHashing .scripthash pooled)
      (emptied event), visit.1.Allowed 7 visit.2 := by
  intro visit member
  simp only [emptied, Run.steps, List.mem_cons, List.not_mem_nil, or_false] at member
  rcases member with rfl | rfl | rfl
  · exact pooled.archive_serves 7
  · rcases change with rfl | rfl
    · exact ⟨le_rfl, [], rfl, by simp⟩
    · trivial
  · rcases change with rfl | rfl <;> exact evicted.archive_serves 7

/-- After a reorganization that empties the history the status is null again. -/
theorem status_after_call_emptied :
    (Run.final (step sampleHashing 7) (start sampleHashing .scripthash pooled)
      (emptied (.reorganize evicted))).sub.status = 0 := by
  have status := status_after_call sampleHashing 7 .scripthash pooled
    (emptied (.reorganize evicted)) (emptied_allowed (.inr rfl))
    (by
      intro visit member
      simp only [emptied, Run.steps, List.mem_cons, List.not_mem_nil, or_false] at member
      rcases member with rfl | rfl | rfl
      · exact fun nothing => absurd nothing (by decide)
      · trivial
      · exact fun _ => rfl)
    (step sampleHashing 7 (step sampleHashing 7 (start sampleHashing .scripthash pooled)
      (.call (pooled.archive 7) 1000)) (.reorganize evicted), .call (evicted.archive 7) 1000)
    (by simp [emptied, Run.steps]) (evicted.archive 7) 1000
    ⟨.scripthash, some 100, 0, ""⟩ rfl (by decide +kernel)
  exact congrArg AddressSubscription.status status.1

/-- The status of an evicted transaction outlives it. -/
theorem status_stale_after_eviction :
    ¬∀ (type : NotifyType) (store : ScriptHistory Nat) (events : List (Event Nat)),
      (∀ visit ∈ Run.steps (step sampleHashing 7) (start sampleHashing type store) events,
        visit.1.Allowed 7 visit.2) →
      ∀ visit ∈ Run.steps (step sampleHashing 7) (start sampleHashing type store) events,
        ∀ archive limit after, visit.2 = .call archive limit →
          getScripthashHistory sampleHashing archive visit.1.sub 7 limit = .ok after →
            after.status = statusOf sampleHashing visit.1.store.entries := by
  intro status
  have stale := status .scripthash pooled (emptied (.change evicted))
    (emptied_allowed (.inl rfl))
    (step sampleHashing 7 (step sampleHashing 7 (start sampleHashing .scripthash pooled)
      (.call (pooled.archive 7) 1000)) (.change evicted), .call (evicted.archive 7) 1000)
    (by simp [emptied, Run.steps]) (evicted.archive 7) 1000 pooledSub rfl (by decide +kernel)
  exact absurd stale (by decide)

end Eviction

end Watch

end LibbitcoinServer.Electrum
