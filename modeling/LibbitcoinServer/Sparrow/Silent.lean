import Mathlib.Algebra.Order.Floor.Div
import Mathlib.Data.Rat.Defs
import Mathlib.Data.String.Basic
import LibbitcoinServer.Lib.OrderedMap
import LibbitcoinServer.Lib.Run

/-! # Silent payment notification

The store writes its silent rows in any order.  Each subscription keeps a cursor, and
its rows are scanned from there up to a frontier, the least row not yet written.  A
subscription is scanned up to its own frontier when it is made, and afterwards, with
all others, up to that of the lowest cursor.
-/

namespace LibbitcoinServer.Sparrow

/-- `max_size_t`. -/
def maxSize : Nat := 2 ^ 64 - 1

def pageSize : Nat := 1000

/-- Confirmed matches below start (height or time) or above stop are cut. -/
structure SilentCut where
  start : Nat := 0
  stop : Nat := maxSize
  time : Bool := false
  deriving DecidableEq, Repr

structure SilentSubscription (Scanner : Type) where
  scanner : Scanner
  labels : List Nat := []
  startHeight : Nat := 0
  cut : SilentCut := {}
  cursor : Nat := 0

/-- A page of history; a match stands for its row. -/
structure Notification (Address : Type) where
  address : Address
  labels : List Nat
  startHeight : Nat
  progress : Rat
  history : List Nat

inductive Answer (Address : Type) where
  | excessiveResourceUsage
  | subscribed (address : Address) (labels : List Nat) (startHeight : Nat)
  | unsubscribed (address : Option Address)

section Frontier

/-- The least unwritten of `fuel` rows from the row on, or the row after them. -/
def frontierFrom (written : List Nat) : Nat → Nat → Nat
  | 0, row => row
  | fuel + 1, row => if row ∈ written then frontierFrom written fuel (row + 1) else row

/-- `get_silent_frontier`: the least unwritten row at or above the row. -/
def getSilentFrontier (written : List Nat) (row : Nat) : Nat :=
  frontierFrom written written.length row

theorem le_frontierFrom (written : List Nat) (fuel row : Nat) :
    row ≤ frontierFrom written fuel row := by
  induction fuel generalizing row with
  | zero => exact le_rfl
  | succ fuel ih =>
      rw [frontierFrom]
      split_ifs
      · have later := ih (row + 1)
        omega
      · exact le_rfl

theorem mem_of_lt_frontierFrom {written : List Nat} {fuel row other : Nat} (above : row ≤ other)
    (below : other < frontierFrom written fuel row) : other ∈ written := by
  induction fuel generalizing row with
  | zero =>
      rw [frontierFrom] at below
      omega
  | succ fuel ih =>
      rw [frontierFrom] at below
      split_ifs at below with here
      · rcases Nat.eq_or_lt_of_le above with rfl | later
        · exact here
        · exact ih later below
      · omega

/-- The search stops short of its fuel at an unwritten row. -/
theorem frontierFrom_stops (written : List Nat) (fuel row : Nat) :
    frontierFrom written fuel row ∉ written ∨ frontierFrom written fuel row = row + fuel := by
  induction fuel generalizing row with
  | zero => exact .inr rfl
  | succ fuel ih =>
      rw [frontierFrom]
      split_ifs with here
      · rcases ih (row + 1) with stops | all
        · exact .inl stops
        · exact .inr (by omega)
      · exact .inl here

theorem le_getSilentFrontier (written : List Nat) (row : Nat) :
    row ≤ getSilentFrontier written row :=
  le_frontierFrom written written.length row

/-- The frontier is the least unwritten row at or above the row. -/
theorem isLeast_getSilentFrontier (written : List Nat) (row : Nat) :
    IsLeast { other | row ≤ other ∧ other ∉ written } (getSilentFrontier written row) := by
  refine ⟨⟨le_getSilentFrontier written row, ?_⟩, ?_⟩
  · rcases frontierFrom_stops written written.length row with stops | all
    · exact stops
    · intro here
      have inside : (List.range' row (written.length + 1)) ⊆ written := by
        intro other member
        rw [List.mem_range'_1] at member
        rcases Nat.lt_or_ge other (row + written.length) with early | last
        · exact mem_of_lt_frontierFrom member.1 (all ▸ early)
        · have same : other = getSilentFrontier written row := by
            rw [getSilentFrontier, all]
            omega
          exact same ▸ here
      have distinct : (List.range' row (written.length + 1)).Nodup := List.nodup_range'
      have count := (List.subperm_of_subset distinct inside).length_le
      simp at count
  · rintro other ⟨above, unwritten⟩
    by_contra below
    exact unwritten (mem_of_lt_frontierFrom above (by simpa [getSilentFrontier] using below))

end Frontier

/-- The pages that matches are sent in. -/
def pageCount (count : Nat) : Nat := max 1 (count ⌈/⌉ pageSize)

def page (found : List Nat) (index : Nat) : List Nat :=
  let first := index * pageSize
  let last := min (first + pageSize) found.length
  (found.drop first).take (last - first)

def progress (count index : Nat) : Rat :=
  if index + 1 = pageCount count then 1 else min (index * pageSize + pageSize) count / count

/-- The pages of a history are the history. -/
theorem flatMap_page (found : List Nat) :
    (List.range (pageCount found.length)).flatMap (page found) = found := by
  have pages : ∀ count,
      (List.range count).flatMap (page found) = found.take (count * pageSize) := by
    intro count
    induction count with
    | zero => simp
    | succ count ih =>
        have last : page found count = (found.drop (count * pageSize)).take pageSize := by
          rw [page, List.take_eq_take_iff, List.length_drop]
          omega
        rw [List.range_succ, List.flatMap_append, ih, List.flatMap_singleton, last,
          ← List.take_add, Nat.succ_mul]
  rw [pages]
  apply List.take_of_length_le
  have enough : found.length ≤ found.length ⌈/⌉ pageSize * pageSize := by
    rw [Nat.ceilDiv_eq_add_pred_div, pageSize]
    omega
  exact enough.trans (Nat.mul_le_mul_right _ (le_max_right _ _))

variable {Address Scanner : Type} [LinearOrder Address]

-- Whether a row matches a scanner under its cut.
variable (hits : Scanner → SilentCut → Nat → Bool)

/-- `get_silent_matches`: the matches among the rows from the cursor up to the last. -/
def getSilentMatches (subscription : SilentSubscription Scanner) (last : Nat) : List Nat :=
  (List.range' subscription.cursor (last - subscription.cursor)).filter
    (hits subscription.scanner subscription.cut)

/-- `scan_silent`; the query of the store may not complete. -/
def scanSilent (address : Address) (subscription : SilentSubscription Scanner) (last : Nat)
    (initial completes : Bool) : SilentSubscription Scanner × List (Notification Address) :=
  if !completes then (subscription, [])
  else
    let found := getSilentMatches hits subscription last
    let moved := { subscription with cursor := last }
    if !initial && found.isEmpty then (moved, [])
    else
      (moved, (List.range (pageCount found.length)).map fun index =>
        { address
          labels := subscription.labels
          startHeight := subscription.startHeight
          progress := progress found.length index
          history := page found index })

/-- A sparrow channel with the store's written rows. -/
structure ProtocolSparrow (Address Scanner : Type) [LinearOrder Address] where
  maximumSubscriptions : Nat
  written : List Nat := []
  silentSubscriptions : OrderedMap Address (SilentSubscription Scanner) := .empty
  notified : List (Notification Address) := []
  answers : List (Answer Address) := []
  /-- How many notifications had been sent when each address was last subscribed. -/
  since : Address → Nat := fun _ => 0

inductive Event (Address Scanner : Type) where
  | write (row : Nat)
  | subscribe (address : Address) (subscription : SilentSubscription Scanner) (floor : Nat)
      (completes : Bool)
  | unsubscribe (address : Address)
  | silent (completes : Address → Bool)

/-- A resubscription never narrows its start. -/
def resubscribe (current subscription : SilentSubscription Scanner) : SilentSubscription Scanner :=
  let start := min current.cut.start subscription.cut.start
  if current.cut.time = subscription.cut.time then
    { subscription with
      cut := { subscription.cut with start }
      startHeight := start }
  else subscription

namespace ProtocolSparrow

variable (protocol : ProtocolSparrow Address Scanner)

/-- `do_silent_subscribe`; the floor is what `get_silent_floor` returns. -/
def doSilentSubscribe (address : Address) (subscription : SilentSubscription Scanner)
    (floor : Nat) (completes : Bool) : ProtocolSparrow Address Scanner :=
  let present := protocol.silentSubscriptions.find? address
  if present.isNone && protocol.maximumSubscriptions ≤ protocol.silentSubscriptions.size then
    { protocol with answers := protocol.answers ++ [.excessiveResourceUsage] }
  else
    let current :=
      match present with
      | none => subscription
      | some current => resubscribe current subscription
    let scanned := scanSilent hits address { current with cursor := floor }
      (getSilentFrontier protocol.written floor) true completes
    { protocol with
      silentSubscriptions := (protocol.silentSubscriptions.tryEmplace address current).adjust
        address fun _ => scanned.1
      notified := protocol.notified ++ scanned.2
      answers := protocol.answers ++
        [.subscribed address current.labels current.startHeight]
      since := Function.update protocol.since address protocol.notified.length }

def doSilentUnsubscribe (address : Address) : ProtocolSparrow Address Scanner :=
  { protocol with
    silentSubscriptions := protocol.silentSubscriptions.erase address
    answers := protocol.answers ++
      [.unsubscribed (if (protocol.silentSubscriptions.find? address).isSome then some address
        else none)] }

/-- The lowest cursor of the subscriptions. -/
def low : Nat :=
  protocol.silentSubscriptions.entries.foldl (fun low entry => min low entry.2.cursor) maxSize

def doSilent (completes : Address → Bool) : ProtocolSparrow Address Scanner :=
  if protocol.silentSubscriptions.size = 0 then protocol
  else
    let last := getSilentFrontier protocol.written protocol.low
    let scanned := protocol.silentSubscriptions.sweep fun address subscription =>
      some (scanSilent hits address subscription last false (completes address))
    { protocol with
      silentSubscriptions := scanned.1
      notified := protocol.notified ++ scanned.2 }

def step : Event Address Scanner → ProtocolSparrow Address Scanner
  | .write row => { protocol with written := row :: protocol.written }
  | .subscribe address subscription floor completes =>
      protocol.doSilentSubscribe hits address subscription floor completes
  | .unsubscribe address => protocol.doSilentUnsubscribe address
  | .silent completes => protocol.doSilent hits completes

/-- The rows that notifications tell an address of, in their order. -/
def rowsOf (notified : List (Notification Address)) (address : Address) : List Nat :=
  (notified.filter fun notification => notification.address = address).flatMap (·.history)

/-- The rows sent to an address since it was last subscribed. -/
def told (address : Address) : List Nat :=
  rowsOf (protocol.notified.drop (protocol.since address)) address

/-! ## What a scan leaves and sends -/

variable {hits} {protocol}

omit [LinearOrder Address] in
theorem scanSilent_subscription (address : Address) (subscription : SilentSubscription Scanner)
    (last : Nat) (initial completes : Bool) :
    (scanSilent hits address subscription last initial completes).1 =
      if completes then { subscription with cursor := last } else subscription := by
  unfold scanSilent
  cases completes with
  | false => rfl
  | true =>
      simp only [Bool.not_true, Bool.false_eq_true, if_false, if_true]
      split_ifs <;> rfl

omit [LinearOrder Address] in
theorem scanSilent_history (address : Address) (subscription : SilentSubscription Scanner)
    (last : Nat) (initial completes : Bool) :
    (scanSilent hits address subscription last initial completes).2.flatMap (·.history) =
      if completes then getSilentMatches hits subscription last else [] := by
  unfold scanSilent
  cases completes with
  | false => rfl
  | true =>
      simp only [Bool.not_true, Bool.false_eq_true, if_false, if_true]
      split_ifs with quiet
      · have none : getSilentMatches hits subscription last = [] := by
          simpa using (Bool.and_eq_true_iff.mp quiet).2
        simp [none]
      · rw [List.flatMap_map]
        exact flatMap_page _

omit [LinearOrder Address] in
theorem scanSilent_address {address : Address} {subscription : SilentSubscription Scanner}
    {last : Nat} {initial completes : Bool} {notification : Notification Address}
    (sent : notification ∈ (scanSilent hits address subscription last initial completes).2) :
    notification.address = address := by
  unfold scanSilent at sent
  dsimp only at sent
  split_ifs at sent
  · cases sent
  · cases sent
  · obtain ⟨_, _, rfl⟩ := List.mem_map.mp sent
    rfl

theorem rowsOf_append (first second : List (Notification Address)) (address : Address) :
    rowsOf (first ++ second) address = rowsOf first address ++ rowsOf second address := by
  simp [rowsOf]

theorem filter_scanSilent_self (address : Address) (subscription : SilentSubscription Scanner)
    (last : Nat) (initial completes : Bool) :
    (scanSilent hits address subscription last initial completes).2.filter
      (fun notification => notification.address = address) =
      (scanSilent hits address subscription last initial completes).2 := by
  apply List.filter_eq_self.mpr
  intro notification sent
  simpa using scanSilent_address sent

theorem filter_scanSilent_ne {address other : Address} (different : other ≠ address)
    (subscription : SilentSubscription Scanner) (last : Nat) (initial completes : Bool) :
    (scanSilent hits address subscription last initial completes).2.filter
      (fun notification => notification.address = other) = [] := by
  rw [List.filter_eq_nil_iff]
  intro notification sent
  rw [scanSilent_address sent]
  simpa using different.symm

theorem rowsOf_scanSilent (address : Address) (subscription : SilentSubscription Scanner)
    (last : Nat) (initial completes : Bool) :
    rowsOf (scanSilent hits address subscription last initial completes).2 address =
      if completes then getSilentMatches hits subscription last else [] := by
  rw [rowsOf, filter_scanSilent_self, scanSilent_history]

theorem rowsOf_scanSilent_ne {address other : Address} (different : other ≠ address)
    (subscription : SilentSubscription Scanner) (last : Nat) (initial completes : Bool) :
    rowsOf (scanSilent hits address subscription last initial completes).2 other = [] := by
  rw [rowsOf, filter_scanSilent_ne different, List.flatMap_nil]

/-- A scan of all subscriptions sends of each what a scan of it alone sends. -/
theorem filter_sweep_scanSilent (subscriptions : OrderedMap Address (SilentSubscription Scanner))
    (last : Nat) (completes : Address → Bool) (address : Address) :
    (subscriptions.sweep fun address subscription =>
        some (scanSilent hits address subscription last false (completes address))).2.filter
      (fun notification => notification.address = address) =
      ((subscriptions.find? address).map fun subscription =>
        (scanSilent hits address subscription last false (completes address)).2).getD [] := by
  rw [OrderedMap.filter_sweep fun _ _ => rfl]
  intro other subscription notification sent
  rw [scanSilent_address sent]
  exact decide_eq_true_iff

/-- What is sent to an address follows what it was told since it was last subscribed. -/
theorem told_of_sent {after : ProtocolSparrow Address Scanner} {sent : List (Notification Address)}
    {address : Address} (same : after.since address = protocol.since address)
    (within : protocol.since address ≤ protocol.notified.length)
    (notified : after.notified = protocol.notified ++ sent) :
    after.told address = protocol.told address ++ rowsOf sent address := by
  rw [told, told, same, notified, List.drop_append_of_le_length within, rowsOf_append]

/-! ## Where the subscriptions stand after a step -/

variable {address other : Address} {subscription : SilentSubscription Scanner}

theorem find?_doSilent (completes : Address → Bool) :
    (protocol.doSilent hits completes).silentSubscriptions.find? address =
      (protocol.silentSubscriptions.find? address).map fun subscription =>
        (scanSilent hits address subscription (getSilentFrontier protocol.written protocol.low)
          false (completes address)).1 := by
  unfold doSilent
  split_ifs with none
  · rw [OrderedMap.find?_of_size_zero none, Option.map_none]
  · exact OrderedMap.find?_sweep fun _ _ => rfl

theorem find?_doSilentSubscribe_ne (different : other ≠ address) (floor : Nat)
    (completes : Bool) :
    (protocol.doSilentSubscribe hits address subscription floor
      completes).silentSubscriptions.find? other =
      protocol.silentSubscriptions.find? other := by
  unfold doSilentSubscribe
  dsimp only
  split_ifs
  · rfl
  · rw [OrderedMap.find?_adjust, if_neg different, OrderedMap.find?_tryEmplace_ne different]

/-- The (re)subscription of an address. -/
def Subscribes (address : Address) : Event Address Scanner → Prop
  | .subscribe other _ _ _ => other = address
  | _ => False

/-- A step lowers no cursor but by a (re)subscription, and every row sent to an address since
    its last one was sent once. -/
def Steady (hits : Scanner → SilentCut → Nat → Bool) (protocol : ProtocolSparrow Address Scanner)
    (event : Event Address Scanner) : Prop :=
  ∀ address, ((protocol.step hits event).told address).Nodup ∧
    ∀ before after, protocol.silentSubscriptions.find? address = some before →
      (protocol.step hits event).silentSubscriptions.find? address = some after →
      ¬Subscribes address event → before.cursor ≤ after.cursor

/-- No cursor that is scanned lies beyond the frontier of the lowest one. -/
def Level (protocol : ProtocolSparrow Address Scanner) : Event Address Scanner → Prop
  | .silent completes => ∀ address subscription,
      protocol.silentSubscriptions.find? address = some subscription → completes address = true →
      subscription.cursor ≤ getSilentFrontier protocol.written protocol.low
  | _ => True

/-- What a step leaves of an address that it does not subscribe: the subscription before it,
    or that one scanned up to the frontier of the lowest cursor. -/
theorem find?_step {event : Event Address Scanner} {after : SilentSubscription Scanner}
    (other : ¬Subscribes address event)
    (found : (protocol.step hits event).silentSubscriptions.find? address = some after) :
    ∃ before, protocol.silentSubscriptions.find? address = some before ∧
      (after = before ∨ ∃ completes, event = .silent completes ∧ completes address = true ∧
        after = { before with cursor := getSilentFrontier protocol.written protocol.low }) := by
  cases event with
  | write row => exact ⟨after, found, .inl rfl⟩
  | subscribe target given floor completes =>
      have different : address ≠ target := fun same => other same.symm
      rw [step, find?_doSilentSubscribe_ne different] at found
      exact ⟨after, found, .inl rfl⟩
  | unsubscribe target =>
      by_cases same : address = target
      · subst same
        simp [step, doSilentUnsubscribe] at found
      · rw [step, doSilentUnsubscribe, OrderedMap.find?_erase_ne same] at found
        exact ⟨after, found, .inl rfl⟩
  | silent completes =>
      rw [step, find?_doSilent] at found
      obtain ⟨before, present, rfl⟩ := Option.map_eq_some_iff.mp found
      refine ⟨before, present, ?_⟩
      rw [scanSilent_subscription]
      cases completed : completes address with
      | false => exact .inl rfl
      | true => exact .inr ⟨completes, rfl, completed, rfl⟩

/-! ## Rows are sent below the cursor -/

/-- What an address was told since it was last subscribed lies below its cursor, each row
    told once. -/
structure Fresh (protocol : ProtocolSparrow Address Scanner) (address : Address) : Prop where
  within : protocol.since address ≤ protocol.notified.length
  once : (protocol.told address).Nodup
  below : ∀ subscription, protocol.silentSubscriptions.find? address = some subscription →
    ∀ row ∈ protocol.told address, row < subscription.cursor

omit [LinearOrder Address] in
/-- A scan finds each row once, from the cursor up to the last. -/
theorem getSilentMatches_inside {subscription : SilentSubscription Scanner} {last row : Nat}
    (found : row ∈ getSilentMatches hits subscription last) :
    subscription.cursor ≤ row ∧ row < last := by
  have bounds := List.mem_range'_1.mp (List.mem_filter.mp found).1
  omega

theorem nodup_getSilentMatches (subscription : SilentSubscription Scanner) (last : Nat) :
    (getSilentMatches hits subscription last).Nodup :=
  List.Nodup.filter _ List.nodup_range'

/-- A scan from a cursor that it does not lower keeps its address fresh. -/
theorem Fresh.scan (fresh : protocol.Fresh address) (after : ProtocolSparrow Address Scanner)
    {sent : List (Notification Address)} (last : Nat) (initial : Bool) {completes : Bool}
    (present : protocol.silentSubscriptions.find? address = some subscription)
    (since : after.since address = protocol.since address)
    (notified : after.notified = protocol.notified ++ sent)
    (rows : rowsOf sent address =
      rowsOf (scanSilent hits address subscription last initial completes).2 address)
    (stands : after.silentSubscriptions.find? address =
      some (scanSilent hits address subscription last initial completes).1)
    (ahead : completes = true → subscription.cursor ≤ last) : after.Fresh address := by
  have told := told_of_sent since fresh.within notified
  rw [rows, rowsOf_scanSilent] at told
  rw [scanSilent_subscription] at stands
  have longer : protocol.notified.length ≤ after.notified.length := by
    rw [notified, List.length_append]
    exact Nat.le_add_right _ _
  cases completes with
  | false =>
      simp only [Bool.false_eq_true, if_false, List.append_nil] at told stands
      refine ⟨since ▸ fresh.within.trans longer, told ▸ fresh.once, ?_⟩
      intro found here row member
      rw [stands, Option.some.injEq] at here
      rw [told] at member
      exact here ▸ fresh.below subscription present row member
  | true =>
      simp only [if_true] at told stands
      have ahead := ahead rfl
      have early := fresh.below subscription present
      refine ⟨since ▸ fresh.within.trans longer, ?_, ?_⟩
      · rw [told]
        apply List.Nodup.append fresh.once (nodup_getSilentMatches subscription last)
        intro row before found
        exact absurd (early row before) (getSilentMatches_inside found).1.not_gt
      · intro found here row member
        rw [stands, Option.some.injEq] at here
        subst here
        rw [told, List.mem_append] at member
        rcases member with before | found
        · exact (early row before).trans_le ahead
        · exact (getSilentMatches_inside found).2

/-- Where nothing is sent to an address, it stays fresh with the subscription it had. -/
theorem Fresh.keep (fresh : protocol.Fresh address) (after : ProtocolSparrow Address Scanner)
    {sent : List (Notification Address)} (since : after.since address = protocol.since address)
    (notified : after.notified = protocol.notified ++ sent) (none : rowsOf sent address = [])
    (stands : ∀ subscription, after.silentSubscriptions.find? address = some subscription →
      protocol.silentSubscriptions.find? address = some subscription) : after.Fresh address := by
  have told := told_of_sent since fresh.within notified
  rw [none, List.append_nil] at told
  refine ⟨?_, told ▸ fresh.once, ?_⟩
  · rw [since, notified, List.length_append]
    exact fresh.within.trans (Nat.le_add_right _ _)
  · intro subscription found row member
    exact fresh.below subscription (stands subscription found) row (told ▸ member)

/-- An address that nothing was sent to since is fresh. -/
theorem fresh_anew (since : protocol.since address = protocol.notified.length) :
    protocol.Fresh address := by
  have none : protocol.told address = [] := by
    rw [told, since, List.drop_length]
    rfl
  refine ⟨since.le, ?_, ?_⟩
  · rw [none]
    exact List.nodup_nil
  · intro subscription _ row member
    rw [none] at member
    cases member

/-- Every address is fresh. -/
def AllFresh (protocol : ProtocolSparrow Address Scanner) : Prop :=
  ∀ address, protocol.Fresh address

/-- A subscribe starts its address anew. -/
theorem AllFresh.subscribe (fresh : protocol.AllFresh) (target : Address)
    (given : SilentSubscription Scanner) (floor : Nat) (completes : Bool) :
    (protocol.doSilentSubscribe hits target given floor completes).AllFresh := by
  intro address
  unfold doSilentSubscribe
  dsimp only
  split_ifs with limited
  · exact (fresh address).keep _ rfl (List.append_nil _).symm rfl fun _ => id
  · generalize (match protocol.silentSubscriptions.find? target with
      | none => given
      | some current => resubscribe current given) = current
    by_cases same : address = target
    · subst same
      -- The address is told nothing before its first scan.
      have anew : { protocol with
          silentSubscriptions := (protocol.silentSubscriptions.tryEmplace address current).adjust
            address fun _ => { current with cursor := floor }
          since := Function.update protocol.since address protocol.notified.length }.Fresh
          address := fresh_anew (Function.update_self ..)
      have placed : ∀ update, ((protocol.silentSubscriptions.tryEmplace address current).adjust
          address fun _ => update).find? address = some update := by
        intro update
        rw [OrderedMap.find?_adjust, if_pos rfl, OrderedMap.find?_tryEmplace, if_pos rfl]
        cases protocol.silentSubscriptions.find? address <;> rfl
      exact anew.scan _ (getSilentFrontier protocol.written floor) true (placed _) rfl rfl rfl
        (placed _) fun _ => le_getSilentFrontier protocol.written floor
    · apply (fresh address).keep _ (Function.update_of_ne same ..) rfl
        (rowsOf_scanSilent_ne same ..)
      intro subscription found
      rwa [OrderedMap.find?_adjust, if_neg same, OrderedMap.find?_tryEmplace_ne same] at found

variable (hits) in
/-- What a scan of all subscriptions sends to each address. -/
theorem rowsOf_doSilent (completes : Address → Bool) :
    ∃ sent, (protocol.doSilent hits completes).notified = protocol.notified ++ sent ∧
      ∀ address, rowsOf sent address =
        ((protocol.silentSubscriptions.find? address).map fun subscription =>
          rowsOf (scanSilent hits address subscription
            (getSilentFrontier protocol.written protocol.low) false (completes address)).2
            address).getD [] := by
  unfold doSilent
  split_ifs with none
  · refine ⟨[], (List.append_nil _).symm, ?_⟩
    intro address
    rw [OrderedMap.find?_of_size_zero none]
    rfl
  · refine ⟨_, rfl, ?_⟩
    intro address
    rw [rowsOf, filter_sweep_scanSilent]
    cases protocol.silentSubscriptions.find? address with
    | none => rfl
    | some subscription =>
        rw [Option.map_some, Option.map_some, Option.getD_some, Option.getD_some, rowsOf,
          filter_scanSilent_self]

theorem AllFresh.silent (fresh : protocol.AllFresh) {completes : Address → Bool}
    (level : protocol.Level (.silent completes)) :
    (protocol.doSilent hits completes).AllFresh := by
  intro address
  obtain ⟨sent, notified, rows⟩ := rowsOf_doSilent hits completes
  have since : (protocol.doSilent hits completes).since = protocol.since := by
    unfold doSilent
    split_ifs <;> rfl
  have stands : (protocol.doSilent hits completes).silentSubscriptions.find? address = _ :=
    find?_doSilent completes
  cases present : protocol.silentSubscriptions.find? address with
  | none =>
      rw [present] at stands
      apply (fresh address).keep _ (congrFun since address) notified
      · rw [rows, present]
        rfl
      · intro subscription found
        rw [stands] at found
        cases found
  | some subscription =>
      rw [present] at stands
      exact (fresh address).scan _ (getSilentFrontier protocol.written protocol.low) false present
        (congrFun since address) notified (by rw [rows, present]; rfl) stands
        (level address subscription present)

theorem AllFresh.step {event : Event Address Scanner} (fresh : protocol.AllFresh)
    (level : protocol.Level event) : (protocol.step hits event).AllFresh := by
  cases event with
  | write row =>
      intro address
      exact (fresh address).keep _ rfl (List.append_nil _).symm rfl fun _ => id
  | subscribe target given floor completes => exact fresh.subscribe target given floor completes
  | unsubscribe target =>
      intro address
      apply (fresh address).keep (protocol.doSilentUnsubscribe target) rfl
        (List.append_nil _).symm rfl
      intro subscription found
      by_cases same : address = target
      · subst same
        simp [doSilentUnsubscribe] at found
      · rwa [doSilentUnsubscribe, OrderedMap.find?_erase_ne same] at found
  | silent completes => exact fresh.silent level

/-- Among fresh addresses a step is steady exactly when its cursors are level. -/
theorem steady_iff_level {event : Event Address Scanner} (fresh : protocol.AllFresh) :
    Steady hits protocol event ↔ protocol.Level event := by
  constructor
  · intro steady
    cases event with
    | silent completes =>
        intro address before present completed
        have found : (protocol.step hits (.silent completes)).silentSubscriptions.find? address =
            some { before with cursor := getSilentFrontier protocol.written protocol.low } := by
          rw [step, find?_doSilent, present, Option.map_some, scanSilent_subscription, completed,
            if_pos rfl]
        exact (steady address).2 before _ present found id
    | write => trivial
    | subscribe => trivial
    | unsubscribe => trivial
  · intro level address
    refine ⟨(fresh.step level address).once, ?_⟩
    intro before after present found other
    obtain ⟨old, stood, rfl | ⟨completes, rfl, completed, rfl⟩⟩ := find?_step other found
    · rw [present, Option.some.injEq] at stood
      rw [stood]
    · rw [present, Option.some.injEq] at stood
      rw [← stood]
      exact level address before present completed

/-- In any run of writes, subscribes, unsubscribes and scans, between two
    (re)subscriptions of an address its cursor never decreases and no row is told
    twice, exactly when every scan finds its cursors level. -/
theorem steady_iff_level_run (hits : Scanner → SilentCut → Nat → Bool) (maximum : Nat)
    (events : List (Event Address Scanner)) :
    (∀ visit ∈ Run.steps (step hits) { maximumSubscriptions := maximum } events,
      Steady hits visit.1 visit.2) ↔
      ∀ visit ∈ Run.steps (step hits) { maximumSubscriptions := maximum } events,
        visit.1.Level visit.2 := by
  apply Run.steps_congr AllFresh (Steady hits) (fun _ _ => True) Level
  · intro protocol event fresh _ steady
    exact fresh.step ((steady_iff_level fresh).mp steady)
  · intro protocol event fresh _
    exact steady_iff_level fresh
  · intro address
    exact fresh_anew rfl
  · simp

/-- Two addresses, the later one past a hole in the rows, which is then filled. -/
private def overtaken : List (Event String Unit) :=
  [.write 0, .write 2, .subscribe "a" { scanner := () } 0 true,
    .subscribe "b" { scanner := () } 2 true, .silent fun _ => true, .write 1,
    .silent fun _ => true]

private def everyRow : Unit → SilentCut → Nat → Bool := fun _ _ _ => true

/-- The scan up to the hole takes the later cursor back, so its row is told again. -/
theorem overtaken_told_twice :
    ¬∀ (hits : Unit → SilentCut → Nat → Bool) (maximum : Nat) (events : List (Event String Unit)),
      ∀ visit ∈ Run.steps (step hits) { maximumSubscriptions := maximum } events,
        Steady hits visit.1 visit.2 := by
  intro all
  have steady := all everyRow 10 overtaken
    (Run.final (step everyRow) { maximumSubscriptions := 10 } overtaken.dropLast,
      .silent fun _ => true) (by simp [overtaken, Run.steps, Run.final])
  have told : (Run.final (step everyRow) { maximumSubscriptions := 10 } overtaken).told "b" =
      [2, 1, 2] := by
    decide +kernel
  have once : ((Run.final (step everyRow) { maximumSubscriptions := 10 } overtaken).told
      "b").Nodup := (steady "b").1
  rw [told] at once
  simp at once

end ProtocolSparrow

end LibbitcoinServer.Sparrow
