import LibbitcoinServer.Electrum.Subscriptions

/-! # The subscription tables

Subscribing and unsubscribing keep each table within its limit and each flag true
exactly where its table has an entry, and a failed subscription changes no table.
A second subscription to a key succeeds wherever the table has room: the limit is
tested before the key is looked up.
-/

namespace LibbitcoinServer.Electrum

variable {Digest : Type} [LinearOrder Digest]

inductive Operation (Digest : Type) where
  | scripthashSubscribe (archive : Archive Digest) (hash : Digest) (type : NotifyType)
  | scripthashUnsubscribe (hash : Digest)
  | outpointSubscribe (archive : Archive Digest) (prevout : Point Digest)
  | outpointUnsubscribe (prevout : Point Digest)

namespace ProtocolElectrum

def operate (hashing : Hashing Digest) (options : Options) (self : ProtocolElectrum Digest) :
    Operation Digest → ProtocolElectrum Digest × List (Post Digest)
  | .scripthashSubscribe archive hash type =>
      self.doScripthashSubscribe hashing options archive hash type
  | .scripthashUnsubscribe hash => self.doScripthashUnsubscribe hash
  | .outpointSubscribe archive prevout => self.doOutpointSubscribe options archive prevout
  | .outpointUnsubscribe prevout => self.doOutpointUnsubscribe prevout

/-- The protocol after an operation. -/
def operated (hashing : Hashing Digest) (options : Options) (self : ProtocolElectrum Digest)
    (operation : Operation Digest) : ProtocolElectrum Digest :=
  (self.operate hashing options operation).1

/-- Both tables are within the limit and both flags tell whether there is an entry. -/
structure Tabled (options : Options) (protocol : ProtocolElectrum Digest) : Prop where
  addresses : protocol.addressSubscriptions.size ≤ options.maximumSubscriptions
  outpoints : protocol.outpointSubscriptions.size ≤ options.maximumSubscriptions
  subscribedAddress : protocol.subscribedAddress ↔ 0 < protocol.addressSubscriptions.size
  subscribedOutpoint : protocol.subscribedOutpoint ↔ 0 < protocol.outpointSubscriptions.size

/-- The two protocols are subscribed to the same keys. -/
def SameKeys (self other : ProtocolElectrum Digest) : Prop :=
  (∀ key, (self.addressSubscriptions.find? key).isSome =
      (other.addressSubscriptions.find? key).isSome) ∧
    ∀ key, (self.outpointSubscriptions.find? key).isSome =
      (other.outpointSubscriptions.find? key).isSome

/-- A subscription to a key that is subscribed already, whose queries succeed. -/
def Resubscribes (self : ProtocolElectrum Digest) : Operation Digest → Prop
  | .scripthashSubscribe archive hash _ => ∃ sub, self.addressSubscriptions.find? hash = some sub ∧
      ∃ answer, archive.getHistory sub.cursor hash maxSize = .ok answer
  | .outpointSubscribe _ prevout => (self.outpointSubscriptions.find? prevout).isSome
  | _ => False

/-- The table of a subscription is not full. -/
def Room (options : Options) (self : ProtocolElectrum Digest) : Operation Digest → Prop
  | .scripthashSubscribe _ _ _ => self.addressSubscriptions.size < options.maximumSubscriptions
  | .outpointSubscribe _ _ => self.outpointSubscriptions.size < options.maximumSubscriptions
  | _ => True

end ProtocolElectrum

/-- The posted response reports a fault. -/
def Post.Failed : Post Digest → Prop
  | .completeScripthashSubscribe code _ | .completeOutpointSubscribe code _ _ => code.isSome
  | _ => False

namespace ProtocolElectrum

variable (hashing : Hashing Digest) (options : Options)

/-- What the tables promise of one operation. -/
structure Kept (protocol : ProtocolElectrum Digest) (operation : Operation Digest) : Prop where
  tabled : (protocol.operate hashing options operation).1.Tabled options
  failed : (∃ post ∈ (protocol.operate hashing options operation).2, post.Failed) →
    protocol.SameKeys (protocol.operate hashing options operation).1
  idempotent : protocol.Resubscribes operation →
    ∀ post ∈ (protocol.operate hashing options operation).2, ¬post.Failed

variable {hashing} {options} {self : ProtocolElectrum Digest} {operation : Operation Digest}
  {archive : Archive Digest}

theorem SameKeys.refl : self.SameKeys self := ⟨fun _ => rfl, fun _ => rfl⟩

theorem tabled_initial : (initial : ProtocolElectrum Digest).Tabled options where
  addresses := Nat.zero_le _
  outpoints := Nat.zero_le _
  subscribedAddress := by simp [initial]
  subscribedOutpoint := by simp [initial]

/-- A flag that an unsubscription lowers with the last entry. -/
theorem lowered_flag {Key Value : Type} [LinearOrder Key] {map : OrderedMap Key Value} {flag : Bool}
    {key : Key} (told : flag ↔ 0 < map.size) :
    (if (map.erase key).size = 0 then false else flag) ↔ 0 < (map.erase key).size := by
  split_ifs with bare
  · simp [bare]
  · have smaller : (map.erase key).size ≤ map.size := OrderedMap.size_erase_le
    have some_left : 0 < (map.erase key).size := Nat.pos_of_ne_zero bare
    exact iff_of_true (told.mpr (some_left.trans_le smaller)) some_left

theorem tabled_operate (tabled : self.Tabled options) :
    (self.operate hashing options operation).1.Tabled options := by
  cases operation with
  | scripthashSubscribe archive hash type =>
      have outcome := doScripthashSubscribe_cases hashing options archive hash type self
      rw [operate]
      generalize self.doScripthashSubscribe hashing options archive hash type = after at outcome ⊢
      cases outcome with
      | full size => exact tabled
      | failed size faulted => exact tabled
      | subscribed size read here elsewhere bounded =>
          exact ⟨bounded, tabled.outpoints,
            iff_of_true rfl (OrderedMap.size_pos_of_find? here), tabled.subscribedOutpoint⟩
  | scripthashUnsubscribe hash =>
      exact ⟨OrderedMap.size_erase_le.trans tabled.addresses, tabled.outpoints,
        lowered_flag tabled.subscribedAddress, tabled.subscribedOutpoint⟩
  | outpointSubscribe archive prevout =>
      simp only [operate, doOutpointSubscribe]
      split_ifs with size
      · cases found : self.outpointSubscriptions.find? prevout with
        | none =>
            refine ⟨tabled.addresses, ?_, tabled.subscribedAddress, ?_⟩
            · simpa [OrderedMap.size_tryEmplace_absent found] using size
            · simp [OrderedMap.size_tryEmplace_absent found]
        | some old =>
            refine ⟨tabled.addresses, ?_, tabled.subscribedAddress, ?_⟩
            · simpa [OrderedMap.tryEmplace_present found] using size.le
            · simpa [OrderedMap.tryEmplace_present found] using OrderedMap.size_pos_of_find? found
      · exact tabled
  | outpointUnsubscribe prevout =>
      exact ⟨tabled.addresses, OrderedMap.size_erase_le.trans tabled.outpoints,
        tabled.subscribedAddress, lowered_flag tabled.subscribedOutpoint⟩

theorem sameKeys_of_failed
    (failed : ∃ post ∈ (self.operate hashing options operation).2, post.Failed) :
    self.SameKeys (self.operate hashing options operation).1 := by
  cases operation with
  | scripthashSubscribe archive hash type =>
      have outcome := doScripthashSubscribe_cases hashing options archive hash type self
      rw [operate] at failed ⊢
      generalize self.doScripthashSubscribe hashing options archive hash type = after
        at outcome failed ⊢
      cases outcome with
      | full size => exact .refl
      | failed size faulted => exact .refl
      | subscribed size read here elsewhere bounded => simp [Post.Failed] at failed
  | scripthashUnsubscribe hash =>
      simp [operate, doScripthashUnsubscribe, Post.Failed] at failed
  | outpointSubscribe archive prevout =>
      simp only [operate, doOutpointSubscribe] at failed ⊢
      split_ifs at failed ⊢ with size
      · simp [Post.Failed] at failed
      · exact .refl
  | outpointUnsubscribe prevout =>
      simp [operate, doOutpointUnsubscribe, Post.Failed] at failed

/-- A repeated subscription succeeds exactly where its table has room. -/
theorem succeeds_iff_room (again : self.Resubscribes operation) :
    (∀ post ∈ (self.operate hashing options operation).2, ¬post.Failed) ↔
      self.Room options operation := by
  cases operation with
  | scripthashSubscribe archive hash type =>
      obtain ⟨sub, present, answer, served⟩ := again
      have outcome := doScripthashSubscribe_cases hashing options archive hash type self
      rw [operate]
      generalize self.doScripthashSubscribe hashing options archive hash type = after at outcome ⊢
      cases outcome with
      | full size => simp [Post.Failed, Room, size]
      | failed size faulted =>
          have limit : self.subscribeLimit options hash = maxSize := by
            simp [subscribeLimit, present]
          obtain ⟨after, read⟩ := getScripthashHistory_ok hashing served
          rw [present, limit, Option.getD_some, read] at faulted
          cases faulted
      | subscribed size read here elsewhere bounded => simp [Post.Failed, Room, size]
  | outpointSubscribe archive prevout =>
      simp only [operate, doOutpointSubscribe]
      split_ifs with size
      · simp [Post.Failed, Room, size]
      · simp [Post.Failed, Room, size]
  | scripthashUnsubscribe hash => cases again
  | outpointUnsubscribe prevout => cases again

theorem kept_iff_room (tabled : self.Tabled options) :
    self.Kept hashing options operation ↔
      (self.Resubscribes operation → self.Room options operation) := by
  constructor
  · intro kept again
    exact (succeeds_iff_room again).mp (kept.idempotent again)
  · intro room
    exact ⟨tabled_operate tabled, sameKeys_of_failed, fun again =>
      (succeeds_iff_room again).mpr (room again)⟩

/-- Over every run of operations the tables keep what they promise exactly where no
    repeated subscription meets a full table. -/
theorem operations_kept_iff (hashing : Hashing Digest) (options : Options)
    (operations : List (Operation Digest)) :
    (∀ visit ∈ Run.steps (operated hashing options) initial operations,
        visit.1.Tabled options ∧ visit.1.Kept hashing options visit.2) ↔
      ∀ visit ∈ Run.steps (operated hashing options) initial operations,
        visit.1.Resubscribes visit.2 → visit.1.Room options visit.2 := by
  have tabled : ∀ visit ∈ Run.steps (operated hashing options) initial operations,
      visit.1.Tabled options :=
    Run.always_steps (fun _ _ tabled => tabled_operate tabled) tabled_initial
  refine forall₂_congr fun visit member => ?_
  rw [kept_iff_room (tabled visit member)]
  exact and_iff_right (tabled visit member)

/-- A subscription to one hash. -/
def subscribeSeven : Operation Nat :=
  .scripthashSubscribe (Watch.pooled.archive 7) 7 .scripthash

/-- With room for one subscription, repeating it fails. -/
theorem operations_full_not_kept :
    ¬∀ (options : Options) (operations : List (Operation Nat)),
      ∀ visit ∈ Run.steps (operated Watch.sampleHashing options) initial operations,
        visit.1.Tabled options ∧ visit.1.Kept Watch.sampleHashing options visit.2 := by
  intro kept
  have second := (kept ⟨1, 100⟩ [subscribeSeven, subscribeSeven]
    (operated Watch.sampleHashing ⟨1, 100⟩ initial subscribeSeven, subscribeSeven)
    (by simp [Run.steps])).2.idempotent
    ⟨Watch.pooledSub, by decide +kernel, (some 100, Watch.pooled.unconfirmed), rfl⟩
  exact second (.completeScripthashSubscribe (some .excessiveResourceUsage) 0)
    (by exact List.mem_singleton.mpr rfl) rfl

end ProtocolElectrum

end LibbitcoinServer.Electrum
