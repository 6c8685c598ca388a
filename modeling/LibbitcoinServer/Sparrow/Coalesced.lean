import LibbitcoinServer.Sparrow.Silent

/-! # Coalesced scans

An event that follows the writing of rows posts a scan, unless one is queued or there is
no subscription.  Both are flags that the event's thread reads while the notification
strand writes them, so each of their loads, stores and exchanges is a step of its own.
A scan clears its flag before it reads how far the rows reach: when none is posted, no
match of a row that an event followed was left out.
-/

namespace LibbitcoinServer.Sparrow

/-- What the notification strand is at. -/
inductive Strand (Address : Type) where
  | idle
  /-- `do_silent_subscribe` has placed the subscription and read its floor. -/
  | emplaced (address : Address)
  /-- It has stored `subscribed_silent_`. -/
  | flagged (address : Address)
  /-- It has read the frontier. -/
  | scanningOne (address : Address) (last : Nat)
  /-- `do_silent_unsubscribe` has erased. -/
  | erased
  /-- `do_silent` has cleared `queued_silent_`. -/
  | silent
  /-- It has read the frontier. -/
  | scanning (last : Nat)
  deriving DecidableEq

namespace Strand

variable {Address : Type}

/-- The frontier that was read. -/
def last? : Strand Address → Option Nat
  | .scanningOne _ last | .scanning last => some last
  | _ => none

/-- A scan that the flag was stored before. -/
def Scans : Strand Address → Prop
  | .flagged _ | .scanningOne _ _ | .silent | .scanning _ => True
  | .idle | .emplaced _ | .erased => False

theorem scans_of_last? {strand : Strand Address} {last : Nat} (read : strand.last? = some last) :
    strand.Scans := by
  cases strand with
  | scanningOne | scanning => trivial
  | idle | emplaced | flagged | erased | silent => cases read

end Strand

/-- A sparrow channel with the threads that handle its events.  Each handler stands for
    the rows that were written when it began. -/
structure Channel (Address Scanner : Type) [LinearOrder Address] where
  protocol : ProtocolSparrow Address Scanner
  subscribedSilent : Bool := false
  queuedSilent : Bool := false
  /-- The scans posted to the strand and not yet begun. -/
  posted : Nat := 0
  strand : Strand Address := .idle
  /-- The handlers that found a subscription and have not yet exchanged the queued flag. -/
  loaded : List Nat := []
  /-- The handlers that exchanged it and have not yet posted. -/
  posting : List Nat := []
  /-- The floor that each address was last subscribed from. -/
  floors : Address → Nat := fun _ => 0
  /-- The rows written before the last event that was handled. -/
  covered : Nat := 0

inductive Action (Address Scanner : Type) where
  | write
  | load
  | exchange (rows : Nat)
  | post (rows : Nat)
  | subscribe (address : Address) (subscription : SilentSubscription Scanner) (floor : Nat)
  | unsubscribe (address : Address)
  | silent
  /-- The next access of what the strand is at. -/
  | advance

variable {Address Scanner : Type} [LinearOrder Address]

-- Whether a row matches a scanner under its cut.
variable (hits : Scanner → SilentCut → Nat → Bool)

namespace Channel

variable (channel : Channel Address Scanner)

def subscriptions : OrderedMap Address (SilentSubscription Scanner) :=
  channel.protocol.silentSubscriptions

def rows : Nat := channel.protocol.written.length

/-- An event was handled. -/
def handled (rows : Nat) : Channel Address Scanner :=
  { channel with covered := max channel.covered rows }

/-- `handle_chase` loads `subscribed_silent_`. -/
def load : Channel Address Scanner :=
  if channel.subscribedSilent then { channel with loaded := channel.rows :: channel.loaded }
  else channel.handled channel.rows

/-- `handle_chase` exchanges `queued_silent_`. -/
def exchange (rows : Nat) : Channel Address Scanner :=
  if rows ∈ channel.loaded then
    if channel.queuedSilent then
      { channel with loaded := channel.loaded.erase rows }.handled rows
    else
      { channel with
        queuedSilent := true
        loaded := channel.loaded.erase rows
        posting := rows :: channel.posting }
  else channel

/-- `handle_chase` posts `do_silent`. -/
def post (rows : Nat) : Channel Address Scanner :=
  if rows ∈ channel.posting then
    { channel with
      posted := channel.posted + 1
      posting := channel.posting.erase rows }.handled rows
  else channel

/-- `do_silent_subscribe`, up to the floor. -/
def emplace (address : Address) (subscription : SilentSubscription Scanner) (floor : Nat) :
    Channel Address Scanner :=
  let protocol := channel.protocol
  let present := protocol.silentSubscriptions.find? address
  if present.isNone && protocol.maximumSubscriptions ≤ protocol.silentSubscriptions.size then
    { channel with
      protocol := { protocol with answers := protocol.answers ++ [.excessiveResourceUsage] } }
  else
    let current :=
      match present with
      | none => subscription
      | some current => resubscribe current subscription
    { channel with
      protocol := { protocol with
        silentSubscriptions := (protocol.silentSubscriptions.tryEmplace address current).adjust
          address fun _ => { current with cursor := floor }
        since := Function.update protocol.since address protocol.notified.length }
      floors := Function.update channel.floors address floor
      strand := .emplaced address }

/-- `do_silent_unsubscribe`, up to its store. -/
def erase (address : Address) : Channel Address Scanner :=
  { channel with protocol := channel.protocol.doSilentUnsubscribe address, strand := .erased }

/-- `do_silent`, up to the frontier. -/
def begin : Channel Address Scanner :=
  { channel with
    posted := channel.posted - 1
    queuedSilent := false
    strand := if channel.subscriptions.size = 0 then .idle else .silent }

/-- The pages of the first scan of an address. -/
def scanOne (address : Address) (last : Nat) : Channel Address Scanner :=
  match channel.subscriptions.find? address with
  | none => { channel with strand := .idle }
  | some subscription =>
      let scanned := scanSilent hits address subscription last true true
      { channel with
        protocol := { channel.protocol with
          silentSubscriptions := channel.subscriptions.adjust address fun _ => scanned.1
          notified := channel.protocol.notified ++ scanned.2 }
        strand := .idle }

/-- The pages of a scan of every subscription. -/
def scanAll (last : Nat) : Channel Address Scanner :=
  let scanned := channel.subscriptions.sweep fun address subscription =>
    some (scanSilent hits address subscription last false true)
  { channel with
    protocol := { channel.protocol with
      silentSubscriptions := scanned.1
      notified := channel.protocol.notified ++ scanned.2 }
    strand := .idle }

/-- The answer of a subscription that was placed. -/
def subscribed (address : Address) : List (Answer Address) :=
  (channel.subscriptions.find? address).toList.map fun subscription =>
    .subscribed address subscription.labels subscription.startHeight

/-- The cursor of an address. -/
def cursor (address : Address) : Nat :=
  ((channel.subscriptions.find? address).map SilentSubscription.cursor).getD 0

def advance : Channel Address Scanner :=
  match channel.strand with
  | .idle => channel
  | .emplaced address =>
      { channel with
        subscribedSilent := true
        protocol := { channel.protocol with
          answers := channel.protocol.answers ++ channel.subscribed address }
        strand := .flagged address }
  | .flagged address =>
      { channel with
        strand := .scanningOne address
          (getSilentFrontier channel.protocol.written (channel.cursor address)) }
  | .scanningOne address last => channel.scanOne hits address last
  | .erased =>
      { channel with
        subscribedSilent := channel.subscriptions.size ≠ 0 && channel.subscribedSilent
        strand := .idle }
  | .silent =>
      { channel with
        strand := .scanning (getSilentFrontier channel.protocol.written channel.protocol.low) }
  | .scanning last => channel.scanAll hits last

/-- The strand begins a task when it is at none. -/
def step : Action Address Scanner → Channel Address Scanner
  | .write =>
      { channel with
        protocol := { channel.protocol with written := channel.rows :: channel.protocol.written } }
  | .load => channel.load
  | .exchange rows => channel.exchange rows
  | .post rows => channel.post rows
  | .subscribe address subscription floor =>
      if channel.strand = .idle then channel.emplace address subscription floor else channel
  | .unsubscribe address => if channel.strand = .idle then channel.erase address else channel
  | .silent => if channel.strand = .idle ∧ 0 < channel.posted then channel.begin else channel
  | .advance => channel.advance hits

/-- No scan is posted or about to be, and the strand is at no task. -/
def Quiescent : Prop := channel.posted = 0 ∧ channel.posting = [] ∧ channel.strand = .idle

instance : Decidable channel.Quiescent :=
  inferInstanceAs (Decidable (_ ∧ _ ∧ _))

/-! ## The scan that is still to come -/

/-- The strand is at a task that scans the address. -/
def Ahead (address : Address) : Prop :=
  match channel.strand with
  | .emplaced other | .flagged other | .scanningOne other _ => other = address
  | .silent | .scanning _ => True
  | .idle | .erased => False

/-- A scan is posted or about to be. -/
def Queued : Prop := 0 < channel.posted ∨ channel.posting ≠ []

structure Inside : Prop where
  contiguous : ∀ row < channel.rows, row ∈ channel.protocol.written
  covered_le : channel.covered ≤ channel.rows
  loaded_le : ∀ rows ∈ channel.loaded, rows ≤ channel.rows
  posting_le : ∀ rows ∈ channel.posting, rows ≤ channel.rows
  queued : channel.queuedSilent = true → channel.Queued
  /-- Without the flag there is no subscription but the one being made, -/
  flagged : channel.subscribedSilent = false → ∀ address subscription,
    channel.subscriptions.find? address = some subscription → channel.strand = .emplaced address
  /-- and no frontier has been read. -/
  unread : channel.subscribedSilent = false → ¬channel.strand.Scans
  within : ∀ address, channel.protocol.since address ≤ channel.protocol.notified.length
  told : ∀ address subscription, channel.subscriptions.find? address = some subscription →
    ∀ row, channel.floors address ≤ row → row < subscription.cursor →
      hits subscription.scanner subscription.cut row → row ∈ channel.protocol.told address
  /-- What was covered since the frontier was read is left to another scan. -/
  read : ∀ last, channel.strand.last? = some last → channel.covered ≤ last ∨ channel.Queued
  reached : ∀ address subscription, channel.subscriptions.find? address = some subscription →
    channel.covered ≤ subscription.cursor ∨ channel.Queued ∨ channel.Ahead address

variable {hits} {channel}

theorem Inside.rows_le_frontier (inside : channel.Inside hits) (row : Nat) :
    channel.rows ≤ getSilentFrontier channel.protocol.written row := by
  by_contra short
  exact (isLeast_getSilentFrontier channel.protocol.written row).1.2
    (inside.contiguous _ (Nat.lt_of_not_le short))

/-- A scan sends the matches between the cursor and the last row. -/
theorem told_scanSilent {subscription : SilentSubscription Scanner} {floor last : Nat}
    {address : Address} {told : List Nat} (initial : Bool)
    (before : ∀ row, floor ≤ row → row < subscription.cursor →
      hits subscription.scanner subscription.cut row → row ∈ told)
    {row : Nat} (above : floor ≤ row) (below : row < last)
    (hit : hits subscription.scanner subscription.cut row) :
    row ∈ told ++ ProtocolSparrow.rowsOf
      (scanSilent hits address subscription last initial true).2 address := by
  rw [ProtocolSparrow.rowsOf_scanSilent, if_pos rfl, List.mem_append]
  by_cases early : row < subscription.cursor
  · exact .inl (before row above early hit)
  · refine .inr (List.mem_filter.mpr ⟨?_, hit⟩)
    rw [List.mem_range'_1]
    omega

/-! ## What the events keep -/

theorem Inside.write (inside : channel.Inside hits) :
    (channel.step hits .write).Inside hits :=
  { inside with
    contiguous := by
      intro row below
      rcases Nat.lt_or_ge row channel.rows with early | last
      · exact List.mem_cons_of_mem _ (inside.contiguous row early)
      · have bound : row < channel.rows + 1 := below
        obtain rfl : row = channel.rows := by omega
        exact List.mem_cons_self
    covered_le := inside.covered_le.trans (Nat.le_succ _)
    loaded_le := fun rows member => (inside.loaded_le rows member).trans (Nat.le_succ _)
    posting_le := fun rows member => (inside.posting_le rows member).trans (Nat.le_succ _) }

/-- An event is handled once its scan is queued, or where it finds no subscription that
    was scanned. -/
theorem Inside.handled (inside : channel.Inside hits) {rows : Nat} (bound : rows ≤ channel.rows)
    (left : channel.Queued ∨ channel.subscribedSilent = false) :
    (channel.handled rows).Inside hits :=
  { inside with
    covered_le := max_le inside.covered_le bound
    read := by
      intro last read
      rcases left with queued | down
      · exact .inr queued
      · exact absurd (Strand.scans_of_last? read) (inside.unread down)
    reached := by
      intro address subscription found
      rcases left with queued | down
      · exact .inr (.inl queued)
      · have making := inside.flagged down address subscription found
        refine .inr (.inr ?_)
        simp [Ahead, Channel.handled, making] }

theorem Inside.load (inside : channel.Inside hits) : (channel.step hits .load).Inside hits := by
  simp only [step, Channel.load]
  split_ifs with flag
  · exact
      { inside with
        loaded_le := by
          intro rows member
          rcases List.mem_cons.mp member with rfl | before
          · exact le_rfl
          · exact inside.loaded_le rows before }
  · exact inside.handled le_rfl (.inr (by simpa using flag))

theorem Inside.exchange (inside : channel.Inside hits) (rows : Nat) :
    (channel.step hits (.exchange rows)).Inside hits := by
  simp only [step, Channel.exchange]
  split_ifs with member queued
  · have erased : { channel with loaded := channel.loaded.erase rows }.Inside hits :=
      { inside with
        loaded_le := fun other later => inside.loaded_le other (List.mem_of_mem_erase later) }
    exact erased.handled (inside.loaded_le rows member) (.inl (inside.queued queued))
  · have some_posting : rows :: channel.posting ≠ [] := by simp
    exact
      { inside with
        loaded_le := fun other later => inside.loaded_le other (List.mem_of_mem_erase later)
        posting_le := by
          intro other later
          rcases List.mem_cons.mp later with rfl | before
          · exact inside.loaded_le _ member
          · exact inside.posting_le other before
        queued := fun _ => .inr some_posting
        read := fun _ _ => .inr (.inr some_posting)
        reached := fun _ _ _ => .inr (.inl (.inr some_posting)) }
  · exact inside

theorem Inside.post (inside : channel.Inside hits) (rows : Nat) :
    (channel.step hits (.post rows)).Inside hits := by
  simp only [step, Channel.post]
  split_ifs with member
  · have one : 0 < channel.posted + 1 := Nat.succ_pos _
    have posted : { channel with
        posted := channel.posted + 1
        posting := channel.posting.erase rows }.Inside hits :=
      { inside with
        posting_le := fun other later => inside.posting_le other (List.mem_of_mem_erase later)
        queued := fun _ => .inl one
        read := fun _ _ => .inr (.inl one)
        reached := fun _ _ _ => .inr (.inl (.inl one)) }
    exact posted.handled (inside.posting_le rows member) (.inl (.inl one))
  · exact inside

/-! ## What the strand keeps -/

/-- At no task, an address is behind only where a scan is queued. -/
theorem Inside.reached_idle (inside : channel.Inside hits) (idle : channel.strand = .idle)
    {address : Address} {subscription : SilentSubscription Scanner}
    (found : channel.subscriptions.find? address = some subscription) :
    channel.covered ≤ subscription.cursor ∨ channel.Queued := by
  rcases inside.reached address subscription found with past | queued | ahead
  · exact .inl past
  · exact .inr queued
  · rw [Ahead, idle] at ahead
    exact ahead.elim

/-- At no task, the flag is set where there is a subscription. -/
theorem Inside.flag_idle (inside : channel.Inside hits) (idle : channel.strand = .idle)
    {address : Address} {subscription : SilentSubscription Scanner}
    (found : channel.subscriptions.find? address = some subscription) :
    channel.subscribedSilent ≠ false := by
  intro down
  have making := inside.flagged down address subscription found
  rw [idle] at making
  cases making

theorem Inside.emplace (inside : channel.Inside hits) (idle : channel.strand = .idle)
    (address : Address) (subscription : SilentSubscription Scanner) (floor : Nat) :
    (channel.emplace address subscription floor).Inside hits := by
  unfold Channel.emplace
  dsimp only
  split_ifs with limited
  · exact { inside with }
  · generalize (match channel.protocol.silentSubscriptions.find? address with
      | none => subscription
      | some present => resubscribe present subscription) = made
    -- Any other address has the subscription that it had.
    have others : ∀ other sub, ((channel.protocol.silentSubscriptions.tryEmplace address
        made).adjust address fun _ => { made with cursor := floor }).find? other = some sub →
        other = address ∧ sub = { made with cursor := floor } ∨
        other ≠ address ∧ channel.subscriptions.find? other = some sub := by
      intro other sub found
      rw [OrderedMap.find?_adjust] at found
      split_ifs at found with same
      · obtain ⟨_, _, rfl⟩ := Option.map_eq_some_iff.mp found
        exact .inl ⟨same, rfl⟩
      · rw [OrderedMap.find?_tryEmplace_ne same] at found
        exact .inr ⟨same, found⟩
    exact
      { inside with
        flagged := by
          intro down other sub found
          rcases others other sub found with ⟨rfl, _⟩ | ⟨_, before⟩
          · rfl
          · exact absurd down (inside.flag_idle idle before)
        unread := fun _ => id
        within := by
          intro other
          dsimp only
          by_cases same : other = address
          · subst same
            rw [Function.update_self]
          · rw [Function.update_of_ne same]
            exact inside.within other
        told := by
          intro other sub found row above below hit
          rcases others other sub found with ⟨rfl, rfl⟩ | ⟨different, before⟩
          · simp only [Function.update_self] at above
            dsimp only at below
            omega
          · simp only [Function.update_of_ne different] at above
            dsimp only [ProtocolSparrow.told]
            rw [Function.update_of_ne different]
            exact inside.told other sub before row above below hit
        read := by
          intro last read
          cases read
        reached := by
          intro other sub found
          rcases others other sub found with ⟨rfl, _⟩ | ⟨_, before⟩
          · exact .inr (.inr rfl)
          · rcases inside.reached_idle idle before with past | queued
            · exact .inl past
            · exact .inr (.inl queued) }

theorem Inside.erase (inside : channel.Inside hits) (idle : channel.strand = .idle)
    (address : Address) : (channel.erase address).Inside hits := by
  have before : ∀ other sub, (channel.erase address).subscriptions.find? other = some sub →
      channel.subscriptions.find? other = some sub := by
    intro other sub found
    by_cases same : other = address
    · subst same
      simp [subscriptions, Channel.erase, ProtocolSparrow.doSilentUnsubscribe] at found
    · simpa [subscriptions, Channel.erase, ProtocolSparrow.doSilentUnsubscribe,
        OrderedMap.find?_erase_ne same] using found
  exact
    { inside with
      flagged := by
        intro down other sub found
        exact absurd down (inside.flag_idle idle (before other sub found))
      unread := fun _ => id
      told := fun other sub found => inside.told other sub (before other sub found)
      read := by
        intro last read
        cases read
      reached := by
        intro other sub found
        rcases inside.reached_idle idle (before other sub found) with past | queued
        · exact .inl past
        · exact .inr (.inl queued) }

/-- The flag is cleared before the frontier is read: the scan is still to come. -/
theorem Inside.begin (inside : channel.Inside hits) (idle : channel.strand = .idle) :
    channel.begin.Inside hits := by
  have some_left : ∀ address subscription,
      channel.subscriptions.find? address = some subscription → channel.subscriptions.size ≠ 0 :=
    fun _ _ found => (OrderedMap.size_pos_of_find? found).ne'
  exact
    { inside with
      queued := by
        intro queued
        cases queued
      flagged := by
        intro down address subscription found
        exact absurd down (inside.flag_idle idle found)
      unread := by
        intro down scans
        by_cases none : channel.subscriptions.size = 0
        · simp [Channel.begin, none, Strand.Scans] at scans
        · obtain ⟨entry, member⟩ := List.exists_mem_of_length_pos (Nat.pos_of_ne_zero none)
          exact inside.flag_idle idle (OrderedMap.find?_eq_some.mpr member) down
      read := by
        intro last read
        simp only [Channel.begin] at read
        split_ifs at read <;> cases read
      reached := by
        intro address subscription found
        refine .inr (.inr ?_)
        simp [Ahead, Channel.begin, some_left address subscription found] }

/-- A scan ends with its subscriptions at the frontier that it read, and their matches sent. -/
theorem Inside.scanned (inside : channel.Inside hits) {last : Nat}
    (read : channel.strand.last? = some last)
    {after : OrderedMap Address (SilentSubscription Scanner)}
    {notified sent : List (Notification Address)}
    (follows : notified = channel.protocol.notified ++ sent) (initial : Bool)
    (found : ∀ address subscription, after.find? address = some subscription →
      ∃ before, channel.subscriptions.find? address = some before ∧
        (subscription = (scanSilent hits address before last initial true).1 ∧
            ProtocolSparrow.rowsOf sent address = ProtocolSparrow.rowsOf
              (scanSilent hits address before last initial true).2 address ∨
          subscription = before ∧ ¬channel.Ahead address)) :
    { channel with
      protocol := { channel.protocol with silentSubscriptions := after, notified }
      strand := .idle }.Inside hits :=
  { inside with
    flagged := fun down => absurd (Strand.scans_of_last? read) (inside.unread down)
    unread := fun _ => id
    within := by
      intro address
      dsimp only
      rw [follows, List.length_append]
      exact (inside.within address).trans (Nat.le_add_right _ _)
    told := by
      intro address subscription here row above below hit
      have longer : ({ channel.protocol with silentSubscriptions := after, notified } :
          ProtocolSparrow Address Scanner).told address =
            channel.protocol.told address ++ ProtocolSparrow.rowsOf sent address :=
        ProtocolSparrow.told_of_sent rfl (inside.within address) follows
      rw [longer]
      obtain ⟨before, present, ⟨rfl, rows⟩ | ⟨rfl, _⟩⟩ := found address subscription here
      · rw [ProtocolSparrow.scanSilent_subscription, if_pos rfl] at below hit
        rw [rows]
        exact told_scanSilent initial (inside.told address before present) above below hit
      · exact List.mem_append_left _ (inside.told address subscription present row above below hit)
    read := by
      intro last read
      cases read
    reached := by
      intro address subscription here
      obtain ⟨before, present, ⟨rfl, _⟩ | ⟨rfl, behind⟩⟩ := found address subscription here
      · rw [ProtocolSparrow.scanSilent_subscription, if_pos rfl]
        rcases inside.read last read with past | queued
        · exact .inl past
        · exact .inr (.inl queued)
      · rcases inside.reached address subscription present with past | queued | ahead
        · exact .inl past
        · exact .inr (.inl queued)
        · exact absurd ahead behind }

/-- The frontier is read: every row that was covered lies below it. -/
theorem Inside.reads (inside : channel.Inside hits) (scans : channel.strand.Scans)
    {strand : Strand Address} {row : Nat}
    (read : strand.last? = some (getSilentFrontier channel.protocol.written row))
    (same : ∀ address, channel.Ahead address → { channel with strand }.Ahead address) :
    { channel with strand }.Inside hits :=
  { inside with
    flagged := fun down => absurd scans (inside.unread down)
    unread := fun down => absurd scans (inside.unread down)
    read := by
      intro last here
      have reached := inside.covered_le.trans (inside.rows_le_frontier row)
      rw [Option.some.inj (read.symm.trans here)] at reached
      exact .inl reached
    reached := by
      intro address subscription found
      rcases inside.reached address subscription found with past | queued | ahead
      · exact .inl past
      · exact .inr (.inl queued)
      · exact .inr (.inr (same address ahead)) }

theorem Inside.scanOne (inside : channel.Inside hits) {address : Address} {last : Nat}
    (strand : channel.strand = .scanningOne address last) :
    (channel.scanOne hits address last).Inside hits := by
  have read : channel.strand.last? = some last := by rw [strand]; rfl
  unfold Channel.scanOne
  cases present : channel.subscriptions.find? address with
  | none =>
      apply inside.scanned read (List.append_nil _).symm true
      intro other subscription found
      refine ⟨subscription, found, .inr ⟨rfl, ?_⟩⟩
      rw [Ahead, strand]
      rintro rfl
      exact absurd (present.symm.trans found) (by simp)
  | some before =>
      apply inside.scanned read rfl true
      intro other subscription found
      rw [OrderedMap.find?_adjust] at found
      split_ifs at found with same
      · subst same
        rw [present] at found
        exact ⟨before, present, .inl ⟨(Option.some.inj found).symm, rfl⟩⟩
      · refine ⟨subscription, found, .inr ⟨rfl, ?_⟩⟩
        rw [Ahead, strand]
        exact fun here => same here.symm

theorem Inside.scanAll (inside : channel.Inside hits) {last : Nat}
    (strand : channel.strand = .scanning last) : (channel.scanAll hits last).Inside hits := by
  apply inside.scanned (by rw [strand]; rfl) rfl false
  intro address subscription found
  rw [OrderedMap.find?_sweep fun _ _ => rfl] at found
  obtain ⟨before, present, rfl⟩ := Option.map_eq_some_iff.mp found
  refine ⟨before, present, .inl ⟨rfl, ?_⟩⟩
  rw [ProtocolSparrow.rowsOf, ProtocolSparrow.filter_sweep_scanSilent _ last fun _ => true, present,
    ProtocolSparrow.rowsOf, ProtocolSparrow.filter_scanSilent_self]
  rfl

theorem Inside.advance (inside : channel.Inside hits) :
    (channel.step hits .advance).Inside hits := by
  simp only [step, Channel.advance]
  cases strand : channel.strand with
  | idle => exact inside
  | emplaced address =>
      exact
        { inside with
          flagged := by
            intro down
            cases down
          unread := by
            intro down
            cases down
          read := by
            intro last read
            cases read
          reached := by
            intro other subscription found
            rcases inside.reached other subscription found with past | queued | ahead
            · exact .inl past
            · exact .inr (.inl queued)
            · rw [Ahead, strand] at ahead
              exact .inr (.inr ahead) }
  | flagged address =>
      apply inside.reads (by rw [strand]; trivial) rfl
      intro other ahead
      rwa [Ahead, strand] at ahead
  | scanningOne address last => exact inside.scanOne strand
  | erased =>
      have before : ∀ address subscription,
          channel.subscriptions.find? address = some subscription →
            channel.subscribedSilent = true ∧ channel.subscriptions.size ≠ 0 := by
        intro address subscription found
        refine ⟨?_, (OrderedMap.size_pos_of_find? found).ne'⟩
        by_contra down
        have making := inside.flagged (by simpa using down) address subscription found
        rw [strand] at making
        cases making
      exact
        { inside with
          flagged := by
            intro down address subscription found
            obtain ⟨up, some_left⟩ := before address subscription found
            simp [up, some_left] at down
          unread := fun _ => id
          read := by
            intro last read
            cases read
          reached := by
            intro address subscription found
            rcases inside.reached address subscription found with past | queued | ahead
            · exact .inl past
            · exact .inr (.inl queued)
            · rw [Ahead, strand] at ahead
              exact ahead.elim }
  | silent =>
      apply inside.reads (by rw [strand]; trivial) rfl
      intro other _
      trivial
  | scanning last => exact inside.scanAll strand

theorem Inside.step (inside : channel.Inside hits) (action : Action Address Scanner) :
    (channel.step hits action).Inside hits := by
  cases action with
  | write => exact inside.write
  | load => exact inside.load
  | exchange rows => exact inside.exchange rows
  | post rows => exact inside.post rows
  | subscribe address subscription floor =>
      simp only [Channel.step]
      split_ifs with idle
      · exact inside.emplace idle address subscription floor
      · exact inside
  | unsubscribe address =>
      simp only [Channel.step]
      split_ifs with idle
      · exact inside.erase idle address
      · exact inside
  | silent =>
      simp only [Channel.step]
      split_ifs with ready
      · exact inside.begin ready.1
      · exact inside
  | advance => exact inside.advance

/-- A channel before any row or event. -/
def opened (maximum : Nat) : Channel Address Scanner where
  protocol := { maximumSubscriptions := maximum }

theorem inside_opened (maximum : Nat) :
    (opened maximum : Channel Address Scanner).Inside hits where
  contiguous := by simp [opened, rows]
  covered_le := le_rfl
  loaded_le := by simp [opened]
  posting_le := by simp [opened]
  queued := by
    intro queued
    cases queued
  flagged := by
    intro _ address subscription found
    cases found
  unread := fun _ => id
  within := fun _ => le_rfl
  told := by
    intro address subscription found
    cases found
  read := by
    intro last read
    cases read
  reached := by
    intro address subscription found
    cases found

/-! ## The pages of a scan -/

/-- Only the last page completes the progress. -/
theorem progress_eq_one {count index : Nat} (inside : index < pageCount count) :
    progress count index = 1 ↔ index + 1 = pageCount count := by
  unfold progress
  split_ifs with last
  · simp [last]
  · -- The page ends short of the matches.
    have full : index * pageSize + pageSize < count := by
      have pages : index + 1 < pageCount count := by omega
      unfold pageCount at pages
      rw [Nat.ceilDiv_eq_add_pred_div, pageSize] at pages
      rw [pageSize]
      omega
    have positive : (0 : Rat) < count := by exact_mod_cast (Nat.zero_le _).trans_lt full
    have short : ((min (index * pageSize + pageSize) count : Nat) : Rat) / count < 1 := by
      rw [div_lt_one positive, min_eq_left full.le]
      exact_mod_cast full
    simp only [last, iff_false]
    exact short.ne

/-- The pages are what was found in order, and the last alone completes. -/
def Paged (pages : List (Notification Address)) (found : List Nat) : Prop :=
  pages.flatMap (·.history) = found ∧
  ∀ index notification, pages[index]? = some notification →
    (notification.progress = 1 ↔ index + 1 = pages.length)

omit [LinearOrder Address] in
theorem paged_scanSilent (address : Address) (subscription : SilentSubscription Scanner)
    (last : Nat) (initial : Bool) :
    Paged (scanSilent hits address subscription last initial true).2
      (getSilentMatches hits subscription last) := by
  refine ⟨ProtocolSparrow.scanSilent_history address subscription last initial true, ?_⟩
  unfold scanSilent
  simp only [Bool.not_true, Bool.false_eq_true, if_false]
  split_ifs with quiet
  · simp
  · intro index notification here
    obtain ⟨_, numbered, rfl⟩ := Option.map_eq_some_iff.mp (List.getElem?_map ▸ here)
    obtain ⟨short, rfl⟩ := List.getElem?_eq_some_iff.mp numbered
    rw [List.length_range] at short
    simpa using progress_eq_one short

variable (channel) in
/-- The subscription of an address that an action scans, and the row that it is scanned to. -/
def scans (action : Action Address Scanner) (address : Address) :
    Option (SilentSubscription Scanner × Nat) :=
  match action, channel.strand with
  | .advance, .scanningOne other last =>
      if address = other then (channel.subscriptions.find? address).map (·, last) else none
  | .advance, .scanning last => (channel.subscriptions.find? address).map (·, last)
  | _, _ => none

/-- What an action sends to each address: the pages of its matches where it scans it, and
    nothing where it does not. -/
def SendsPages (hits : Scanner → SilentCut → Nat → Bool) (channel : Channel Address Scanner)
    (action : Action Address Scanner) : Prop :=
  ∃ sent, (channel.step hits action).protocol.notified = channel.protocol.notified ++ sent ∧
    ∀ address,
      let pages := sent.filter fun notification => notification.address = address
      match channel.scans action address with
      | some (subscription, last) => Paged pages (getSilentMatches hits subscription last)
      | none => pages = []

theorem sendsPages_of_quiet {action : Action Address Scanner}
    (same : (channel.step hits action).protocol.notified = channel.protocol.notified)
    (none : ∀ address, channel.scans action address = none) : SendsPages hits channel action := by
  refine ⟨[], by rw [same, List.append_nil], ?_⟩
  intro address
  rw [none]
  rfl

theorem sendsPages (action : Action Address Scanner) : SendsPages hits channel action := by
  cases action with
  | write => exact sendsPages_of_quiet rfl fun _ => rfl
  | load =>
      apply sendsPages_of_quiet _ fun _ => rfl
      simp only [step, load]
      split_ifs <;> rfl
  | exchange rows =>
      apply sendsPages_of_quiet _ fun _ => rfl
      simp only [step, exchange]
      split_ifs <;> rfl
  | post rows =>
      apply sendsPages_of_quiet _ fun _ => rfl
      simp only [step, post]
      split_ifs <;> rfl
  | subscribe address subscription floor =>
      apply sendsPages_of_quiet _ fun _ => rfl
      simp only [step, emplace]
      split_ifs <;> rfl
  | unsubscribe address =>
      apply sendsPages_of_quiet _ fun _ => rfl
      simp only [step]
      split_ifs <;> rfl
  | silent =>
      apply sendsPages_of_quiet _ fun _ => rfl
      simp only [step]
      split_ifs <;> rfl
  | advance =>
      simp only [SendsPages, step, advance]
      cases strand : channel.strand with
      | idle | emplaced | flagged | erased | silent =>
          exact ⟨[], (List.append_nil _).symm, fun address => by simp [scans, strand]⟩
      | scanningOne other last =>
          simp only [scanOne, scans, strand]
          cases present : channel.subscriptions.find? other with
          | none =>
              refine ⟨[], (List.append_nil _).symm, ?_⟩
              intro address
              by_cases same : address = other
              · simp [same, present]
              · simp [same]
          | some subscription =>
              refine ⟨_, rfl, ?_⟩
              intro address
              by_cases same : address = other
              · subst same
                rw [if_pos rfl, present, ProtocolSparrow.filter_scanSilent_self]
                exact paged_scanSilent ..
              · rw [if_neg same]
                exact ProtocolSparrow.filter_scanSilent_ne same ..
      | scanning last =>
          refine ⟨_, rfl, ?_⟩
          intro address
          simp only [scans, strand]
          rw [ProtocolSparrow.filter_sweep_scanSilent _ last fun _ => true]
          cases channel.subscriptions.find? address with
          | none => rfl
          | some subscription => exact paged_scanSilent ..

/-! ## Tasks that nothing interrupts -/

/-- What follows the floor of `do_silent_subscribe`. -/
theorem advance_emplaced {address : Address} {subscription : SilentSubscription Scanner}
    (strand : channel.strand = .emplaced address)
    (found : channel.subscriptions.find? address = some subscription) :
    let scanned := scanSilent hits address subscription
      (getSilentFrontier channel.protocol.written subscription.cursor) true true
    (((channel.advance hits).advance hits).advance hits).protocol =
      { channel.protocol with
        silentSubscriptions := channel.subscriptions.adjust address fun _ => scanned.1
        notified := channel.protocol.notified ++ scanned.2
        answers := channel.protocol.answers ++
          [.subscribed address subscription.labels subscription.startHeight] } := by
  unfold subscriptions at found
  simp [Channel.advance, strand, Channel.scanOne, subscriptions, cursor, subscribed, found]

/-- The parts of `do_silent_subscribe` in a row are the whole. -/
theorem subscribe_uninterrupted (idle : channel.strand = .idle) (address : Address)
    (subscription : SilentSubscription Scanner) (floor : Nat) :
    ((((channel.step hits (.subscribe address subscription floor)).advance hits).advance
      hits).advance hits).protocol =
      channel.protocol.doSilentSubscribe hits address subscription floor true := by
  simp only [step, if_pos idle]
  unfold Channel.emplace ProtocolSparrow.doSilentSubscribe
  dsimp only
  cases present : channel.protocol.silentSubscriptions.find? address with
  | none =>
      dsimp only
      split_ifs with limited
      · simp [Channel.advance, idle]
      · rw [advance_emplaced rfl (by
          rw [subscriptions, OrderedMap.find?_adjust, if_pos rfl,
            OrderedMap.find?_tryEmplace_absent present, Option.map_some])]
        simp [subscriptions, OrderedMap.adjust_adjust]
  | some current =>
      dsimp only
      split_ifs with limited
      · simp at limited
      · rw [advance_emplaced rfl (by
          rw [subscriptions, OrderedMap.find?_adjust, if_pos rfl,
            OrderedMap.tryEmplace_present present, present, Option.map_some])]
        simp [subscriptions, OrderedMap.adjust_adjust]

theorem silent_uninterrupted (idle : channel.strand = .idle) (posted : 0 < channel.posted) :
    (((channel.step hits .silent).advance hits).advance hits).protocol =
      channel.protocol.doSilent hits fun _ => true := by
  simp only [step, if_pos (And.intro idle posted)]
  unfold Channel.begin ProtocolSparrow.doSilent subscriptions
  split_ifs with none
  · simp [Channel.advance]
  · simp [Channel.advance, Channel.scanAll, subscriptions]

/-- In every run, once no scan is posted every match of the rows that an event followed
    has been sent for every subscription from its floor on; and every scan sends its
    matches in pages. -/
theorem coalesced_loses_nothing (hits : Scanner → SilentCut → Nat → Bool) (maximum : Nat)
    (actions : List (Action Address Scanner)) :
    let channel := Run.final (step hits) (opened maximum) actions
    (channel.Quiescent → ∀ address subscription,
      channel.subscriptions.find? address = some subscription →
      ∀ row < channel.covered, channel.floors address ≤ row →
        hits subscription.scanner subscription.cut row → row ∈ channel.protocol.told address) ∧
    ∀ visit ∈ Run.steps (step hits) (opened maximum) actions,
      SendsPages hits visit.1 visit.2 := by
  intro channel
  have inside : channel.Inside hits :=
    Run.always_final (fun _ action inside => inside.step action) (inside_opened maximum)
  refine ⟨?_, fun visit _ => sendsPages visit.2⟩
  rintro ⟨none, quiet, idle⟩ address subscription found row below above hit
  have past : channel.covered ≤ subscription.cursor := by
    rcases inside.reached_idle idle found with past | posted | posting
    · exact past
    · omega
    · exact absurd quiet posting
  exact inside.told address subscription found row above (below.trans_le past) hit

/-- A subscription, then two events for one row while its scan is queued. -/
private def oneRow : List (Action String Unit) :=
  [.subscribe "a" { scanner := () } 0, .advance, .advance, .advance, .write, .load, .load,
    .exchange 1, .exchange 1, .post 1, .silent, .advance, .advance]

private def everyRowHits : Unit → SilentCut → Nat → Bool := fun _ _ _ => true

theorem coalesced_one_row :
    (Run.final (step everyRowHits) (opened 10) oneRow).Quiescent ∧
    (Run.final (step everyRowHits) (opened 10) oneRow).covered = 1 ∧
    0 ∈ (Run.final (step everyRowHits) (opened 10) oneRow).protocol.told "a" ∧
    ∀ visit ∈ Run.steps (step everyRowHits) (opened 10) oneRow,
      SendsPages everyRowHits visit.1 visit.2 := by
  have quiescent : (Run.final (step everyRowHits) (opened 10) oneRow).Quiescent := by
    decide +kernel
  have covered : (Run.final (step everyRowHits) (opened 10) oneRow).covered = 1 := by
    decide +kernel
  have floor : (Run.final (step everyRowHits) (opened 10) oneRow).floors "a" = 0 := by
    decide +kernel
  have present : ((Run.final (step everyRowHits) (opened 10) oneRow).subscriptions.find?
      "a").isSome := by
    decide +kernel
  obtain ⟨subscription, found⟩ := Option.isSome_iff_exists.mp present
  have both := coalesced_loses_nothing everyRowHits 10 oneRow
  have sent := both.1 quiescent "a" subscription found 0 (by rw [covered]; decide) (by rw [floor])
  exact ⟨quiescent, covered, sent rfl, both.2⟩

end Channel

end LibbitcoinServer.Sparrow
