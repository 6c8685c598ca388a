import LibbitcoinServer.Lib.Run
import LibbitcoinServer.Btcd.Matching

/-! # Live matching

The chain may grow at any time, and an event is queued to the notification strand for
every block; the strand takes the events in order, as late as it will.  A watch reads
up to the present while its notification is of one block, so a match is lost when it
is read for an earlier block than its own.  As long as no event reads past its block,
each match stands in one notification, that of its block.
-/

namespace LibbitcoinServer.Btcd

variable {Digest : Type} [LinearOrder Digest]

/-- A channel and the chain it follows: the events queued to its notification strand,
    the height that it has handled, what it has sent, and the top of the chain when each
    watch was primed. -/
structure Channel (Digest : Type) [LinearOrder Digest] where
  chain : Chain Digest
  queue : List Task
  handled : Nat
  protocol : ProtocolBtcd Digest
  sent : List (Notification Digest)
  primedKeys : Digest → Nat
  primedPoints : Point Digest → Nat
  stopped : Bool

inductive Event (Digest : Type) where
  | organize (block : Block Digest)
  | loadTxFilter (archive : BlockArchive Digest) (reload : Bool) (keys : List Digest)
      (points : List (Point Digest))
  | notifyReceived (archive : BlockArchive Digest) (keys : List Digest)
  | stopNotifyReceived (keys : List Digest)
  | notifySpent (points : List (Point Digest))
  | stopNotifySpent (points : List (Point Digest))
  | strand (archive : BlockArchive Digest)

/-- The heights of the filteredblockconnected notifications that hold the transaction,
    one for each time that they hold it. -/
def appearances (tx : Transaction Digest) : List (Notification Digest) → List Nat
  | [] => []
  | .filteredblockconnected height _ txs :: later =>
      List.replicate (txs.count tx) height ++ appearances tx later
  | _ :: later => appearances tx later

namespace Channel

variable (options : Options)

/-- A channel that has subscribed to blocks, with all events handled. -/
def start (chain : Chain Digest) : Channel Digest :=
  ⟨chain, [], chain.top, ProtocolBtcd.initial.handleNotifyBlocks, [], fun _ => 0, fun _ => 0, false⟩

/-- The channel after a block is organized. -/
def organized (channel : Channel Digest) (block : Block Digest)
    (fresh : Distinct (channel.chain.blocks ++ [block])) : Channel Digest :=
  { channel with
    chain := channel.chain.extend block fresh
    queue := channel.queue ++
      channel.protocol.handleChase (.organized (channel.chain.extend block fresh).top) }

/-- The channel after a load: what it adds to the filter is primed now. -/
def loaded (channel : Channel Digest) (reload : Bool) (next : ProtocolBtcd Digest) :
    Channel Digest :=
  let before := channel.protocol.reloaded reload
  { channel with
    protocol := next
    primedKeys := fun key => if (before.addressWatches.find? key).isSome
      then channel.primedKeys key else channel.chain.top
    primedPoints := fun prevout => if (before.outpointWatches.find? prevout).isSome
      then channel.primedPoints prevout else channel.chain.top }

/-- Runs the posted work of the event of a block. -/
def deliver (channel : Channel Digest) (link : Nat)
    (result : ProtocolBtcd Digest × List (Post Digest)) : Channel Digest :=
  { channel with
    protocol := result.1
    sent := channel.sent ++ result.2.flatMap result.1.notify
    stopped := result.2.any Post.overflows
    handled := if result.2.any Post.overflows then channel.handled else link }

/-- What an event does to a running channel. -/
def act (channel : Channel Digest) : Event Digest → Channel Digest
  | .organize block =>
      if fresh : Distinct (channel.chain.blocks ++ [block]) then channel.organized block fresh
      else channel
  | .loadTxFilter archive reload keys points =>
      channel.loaded reload (channel.protocol.doLoadTxFilter options archive.toArchive
        (fun _ => false) reload keys points).1
  | .notifyReceived archive keys =>
      { channel with
        protocol := (channel.protocol.doNotifyReceived options archive.toArchive
          (fun _ => false) keys).1 }
  | .stopNotifyReceived keys =>
      { channel with protocol := channel.protocol.doStopNotifyReceived keys }
  | .notifySpent points =>
      { channel with
        protocol := (channel.protocol.doNotifySpent options (fun _ => false) points).1 }
  | .stopNotifySpent points =>
      { channel with protocol := channel.protocol.doStopNotifySpent points }
  | .strand archive =>
      match channel.queue with
      | [] => channel
      | .doConnected link :: rest =>
          { channel with queue := rest }.deliver link
            (channel.protocol.doConnected options archive (fun _ => false) link)
      | .doDisconnected link :: rest =>
          { channel with queue := rest }.deliver link
            (channel.protocol.doDisconnected archive link)

/-- A stopped channel takes no step. -/
def step (channel : Channel Digest) (event : Event Digest) : Channel Digest :=
  if channel.stopped then channel else channel.act options event

/-- The archive that a step reads depicts the chain. -/
def Reads (channel : Channel Digest) : Event Digest → Prop
  | .loadTxFilter archive _ _ _ => archive.Depicts channel.chain
  | .notifyReceived archive _ => archive.Depicts channel.chain
  | .strand archive => archive.Depicts channel.chain
  | _ => True

/-- No filter watch has an unread match above the height. -/
structure Prompt (channel : Channel Digest) (link : Nat) : Prop where
  addresses : ∀ key watch height position tx,
    channel.protocol.addressWatches.find? key = some watch → watch.Unread height →
      channel.chain.At height position tx → tx.Touches key → height ≤ link
  outpoints : ∀ prevout watch height position tx,
    channel.protocol.outpointWatches.find? prevout = some watch →
      watch.Unread height position tx.hash → channel.chain.At height position tx →
        tx.Spends prevout → height ≤ link

/-- The strand reads no match past the block of its event. -/
def Timely (channel : Channel Digest) : Event Digest → Prop
  | .strand _ => ∀ link rest, channel.queue = .doConnected link :: rest → channel.Prompt link
  | _ => True

/-- Every match of a filter watch in a handled block above its priming stands in one
    notification, that of its block. -/
structure Reported (channel : Channel Digest) : Prop where
  addresses : ∀ key watch height position tx,
    channel.protocol.addressWatches.find? key = some watch →
      channel.chain.At height position tx → tx.Touches key →
        channel.primedKeys key < height → height ≤ channel.handled →
          appearances tx channel.sent = [height]
  outpoints : ∀ prevout watch height position tx,
    channel.protocol.outpointWatches.find? prevout = some watch →
      channel.chain.At height position tx → tx.Spends prevout →
        channel.primedPoints prevout < height → height ≤ channel.handled →
          appearances tx channel.sent = [height]

/-- What holds of a channel that runs: its queue is of the blocks that it has not
    handled, and what its watches have read is handled or was there before them. -/
structure Steady (channel : Channel Digest) : Prop where
  subscribed : channel.protocol.subscribedBlocks = true
  behind : channel.handled ≤ channel.chain.top
  pending : channel.queue = (List.range' (channel.handled + 1)
    (channel.chain.top - channel.handled)).map .doConnected
  addresses : ∀ key watch, channel.protocol.addressWatches.find? key = some watch →
    ∃ passed, watch.cursor = some passed ∧ passed ≤ channel.chain.top ∧
      ∀ height position tx, channel.chain.At height position tx → tx.Touches key →
        height ≤ passed → height ≤ max channel.handled (channel.primedKeys key)
  outpoints : ∀ prevout watch, channel.protocol.outpointWatches.find? prevout = some watch →
    ∀ entry ∈ watch.spenders, entry.confirmed →
      entry.height ≤ max channel.handled (channel.primedPoints prevout)
  past : ∀ height header txs, .filteredblockconnected height header txs ∈ channel.sent →
    height ≤ channel.handled ∧ ∀ tx ∈ txs, ∃ position, channel.chain.At height position tx

/-- The invariant of a run. -/
structure Sound (channel : Channel Digest) : Prop where
  reported : channel.Reported
  steady : channel.stopped = false → channel.Steady

end Channel

section Appearances

variable {tx : Transaction Digest} {sent later : List (Notification Digest)}

theorem appearances_append :
    appearances tx (sent ++ later) = appearances tx sent ++ appearances tx later := by
  induction sent with
  | nil => rfl
  | cons notification rest ih => cases notification <;> simp [appearances, ih]

theorem appearances_eq_nil
    (absent : ∀ height header txs, .filteredblockconnected height header txs ∈ sent → tx ∉ txs) :
    appearances tx sent = [] := by
  induction sent with
  | nil => rfl
  | cons notification rest ih =>
      have none := ih fun height header txs member =>
        absent height header txs (List.mem_cons_of_mem _ member)
      cases notification with
      | filteredblockconnected height header txs =>
          have first := absent height header txs List.mem_cons_self
          simp [appearances, none, List.count_eq_zero_of_not_mem first]
      | _ => exact none

variable {protocol : ProtocolBtcd Digest} {header : Header Digest} {link : Nat}
  {txs : List (Transaction Digest)} {received redeemed : List (Legacy Digest)}

theorem mem_notify {height : Nat} {other : Header Digest} {matched : List (Transaction Digest)}
    (member : .filteredblockconnected height other matched ∈
      protocol.notify (.notifyConnected header link txs received redeemed)) :
    height = link ∧ matched = txs := by
  simp only [ProtocolBtcd.notify, List.mem_append, List.mem_map, reduceCtorEq, and_false,
    exists_false, or_false] at member
  split_ifs at member
  · simp at member
    exact ⟨member.1, member.2.2⟩
  · cases member

theorem appearances_notify (subscribed : protocol.subscribedBlocks = true) :
    appearances tx (protocol.notify (.notifyConnected header link txs received redeemed)) =
      List.replicate (txs.count tx) link := by
  have legacy : appearances tx (received.map .recvtx ++ redeemed.map .redeemingtx) = [] :=
    appearances_eq_nil (by simp)
  simp [ProtocolBtcd.notify, subscribed, appearances, legacy]

end Appearances

namespace Channel

variable {options : Options} {channel : Channel Digest} {archive : BlockArchive Digest}

theorem start_sound (chain : Chain Digest) : (start chain).Sound where
  reported := ⟨fun _ _ _ _ _ found => (by cases found), fun _ _ _ _ _ found => (by cases found)⟩
  steady _ :=
    { subscribed := rfl
      behind := le_rfl
      pending := by simp [start]
      addresses := fun _ _ found => by cases found
      outpoints := fun _ _ found => by cases found
      past := fun _ _ _ member => by cases member }

/-- Legacy watches take no part in the filter. -/
theorem Sound.legacy (sound : channel.Sound) {next : ProtocolBtcd Digest}
    (same : SameFilter channel.protocol next) : { channel with protocol := next }.Sound where
  reported :=
    { addresses := by
        intro key watch height position tx found
        rw [same.addresses] at found
        exact sound.reported.addresses key watch height position tx found
      outpoints := by
        intro prevout watch height position tx found
        rw [same.outpoints] at found
        exact sound.reported.outpoints prevout watch height position tx found }
  steady running :=
    { sound.steady running with
      subscribed := same.subscribed.trans (sound.steady running).subscribed
      addresses := by
        intro key watch found
        rw [same.addresses] at found
        exact (sound.steady running).addresses key watch found
      outpoints := by
        intro prevout watch found
        rw [same.outpoints] at found
        exact (sound.steady running).outpoints prevout watch found }

section Organize

variable {block : Block Digest} {fresh : Distinct (channel.chain.blocks ++ [block])}

theorem Reported.organized (reported : channel.Reported)
    (behind : channel.handled ≤ channel.chain.top) : (channel.organized block fresh).Reported where
  addresses key watch height position tx found stands touches new old :=
    reported.addresses key watch height position tx found (stands.of_extend (old.trans behind))
      touches new old
  outpoints prevout watch height position tx found stands spends new old :=
    reported.outpoints prevout watch height position tx found (stands.of_extend (old.trans behind))
      spends new old

theorem Steady.organized (steady : channel.Steady) : (channel.organized block fresh).Steady where
  subscribed := steady.subscribed
  behind := by
    have behind := steady.behind
    simp only [Channel.organized, Chain.top_extend]
    omega
  pending := by
    have behind := steady.behind
    have longer : channel.chain.top + 1 - channel.handled =
        (channel.chain.top - channel.handled) + 1 := by omega
    have last : channel.handled + 1 + (channel.chain.top - channel.handled) =
        channel.chain.top + 1 := by omega
    simp only [Channel.organized, Chain.top_extend, longer, List.range'_concat, List.map_append,
      steady.pending, ProtocolBtcd.handleChase, steady.subscribed, Bool.true_or, if_true,
      List.map_cons, List.map_nil, one_mul, last]
  addresses key watch found := by
    obtain ⟨passed, cursor, within, read⟩ := steady.addresses key watch found
    refine ⟨passed, cursor, ?_, fun height position tx stands touches low => ?_⟩
    · simp only [Channel.organized, Chain.top_extend]
      omega
    · exact read height position tx (stands.of_extend (low.trans within)) touches low
  outpoints := steady.outpoints
  past height header txs member := by
    obtain ⟨low, stand⟩ := steady.past height header txs member
    refine ⟨low, fun tx inside => ?_⟩
    obtain ⟨position, stands⟩ := stand tx inside
    exact ⟨position, stands.extend⟩

end Organize

section Load

variable {reload : Bool} {next : ProtocolBtcd Digest}
  (load : Loaded archive channel.chain (channel.protocol.reloaded reload) next)
include load

theorem loaded_address {key : Digest} {watch : AddressWatch}
    (found : next.addressWatches.find? key = some watch) :
    (channel.protocol.addressWatches.find? key = some watch ∧
        (channel.loaded reload next).primedKeys key = channel.primedKeys key) ∨
      (watch.cursor = some channel.chain.top ∧
        (channel.loaded reload next).primedKeys key = channel.chain.top) := by
  cases load.addresses.of_find? found with
  | inl kept =>
      refine .inl ⟨?_, by simp [Channel.loaded, kept]⟩
      cases reload with
      | false => exact kept
      | true => cases kept
  | inr added => exact .inr ⟨added.2, by simp [Channel.loaded, added.1]⟩

theorem loaded_outpoint {prevout : Point Digest} {watch : OutpointWatch Digest}
    (found : next.outpointWatches.find? prevout = some watch) :
    (channel.protocol.outpointWatches.find? prevout = some watch ∧
        (channel.loaded reload next).primedPoints prevout = channel.primedPoints prevout) ∨
      (watch.spenders = archive.getSpendersHistory prevout ∧
        (channel.loaded reload next).primedPoints prevout = channel.chain.top) := by
  cases load.outpoints.of_find? found with
  | inl kept =>
      refine .inl ⟨?_, by simp [Channel.loaded, kept]⟩
      cases reload with
      | false => exact kept
      | true => cases kept
  | inr added => exact .inr ⟨added.2, by simp [Channel.loaded, added.1]⟩

theorem Reported.loaded (reported : channel.Reported)
    (behind : channel.handled ≤ channel.chain.top) : (channel.loaded reload next).Reported where
  addresses key watch height position tx found stands touches new old := by
    rcases loaded_address load found with ⟨kept, primed⟩ | ⟨-, primed⟩
    · rw [primed] at new
      exact reported.addresses key watch height position tx kept stands touches new old
    · rw [primed] at new
      exact absurd (old.trans behind) new.not_ge
  outpoints prevout watch height position tx found stands spends new old := by
    rcases loaded_outpoint load found with ⟨kept, primed⟩ | ⟨-, primed⟩
    · rw [primed] at new
      exact reported.outpoints prevout watch height position tx kept stands spends new old
    · rw [primed] at new
      exact absurd (old.trans behind) new.not_ge

theorem Steady.loaded (steady : channel.Steady) (depicts : archive.Depicts channel.chain) :
    (channel.loaded reload next).Steady where
  subscribed := by
    refine load.subscribed.trans ?_
    cases reload <;> exact steady.subscribed
  behind := steady.behind
  pending := steady.pending
  addresses key watch found := by
    rcases loaded_address load found with ⟨kept, primed⟩ | ⟨current, primed⟩
    · rw [primed]
      exact steady.addresses key watch kept
    · rw [primed]
      exact ⟨_, current, le_rfl, fun height position tx stands _ _ =>
        stands.le_top.trans (le_max_right _ _)⟩
  outpoints prevout watch found entry member confirmed := by
    rcases loaded_outpoint load found with ⟨kept, primed⟩ | ⟨current, primed⟩
    · rw [primed]
      exact steady.outpoints prevout watch kept entry member confirmed
    · rw [primed]
      rw [current] at member
      obtain ⟨tx, stands, -⟩ :=
        (depicts.spenders _ _ _ _).mp ⟨entry, member, confirmed, rfl, rfl, rfl⟩
      exact stands.le_top.trans (le_max_right _ _)
  past := steady.past

end Load

/-- The next event of a running channel is of the first block that it has not handled. -/
theorem Steady.next (steady : channel.Steady) {task : Task} {rest : List Task}
    (queued : channel.queue = task :: rest) :
    task = .doConnected (channel.handled + 1) ∧ channel.handled + 1 ≤ channel.chain.top ∧
      rest = (List.range' (channel.handled + 1 + 1)
        (channel.chain.top - (channel.handled + 1))).map .doConnected := by
  have pending := steady.pending
  rw [queued] at pending
  cases left : channel.chain.top - channel.handled with
  | zero => simp [left] at pending
  | succ more =>
      rw [left, List.range'_succ, List.map_cons] at pending
      obtain ⟨first, later⟩ := List.cons.inj pending
      have fewer : channel.chain.top - (channel.handled + 1) = more := by omega
      exact ⟨first, by omega, by rw [fewer]; exact later⟩

section Strand

variable {rest : List Task} {next : ProtocolBtcd Digest} {header : Header Digest}
  {txs : List (Transaction Digest)} {received redeemed : List (Legacy Digest)}

/-- The channel after the event of its next block. -/
def advanced (channel : Channel Digest) (rest : List Task) (next : ProtocolBtcd Digest)
    (posts : List (Post Digest)) : Channel Digest :=
  { channel with queue := rest }.deliver (channel.handled + 1) (next, posts)

theorem Reported.overflowed (reported : channel.Reported)
    (swept : Swept archive channel.chain channel.protocol next) :
    (channel.advanced rest next [.completeOverflow .miscError]).Reported where
  addresses key watch height position tx found stands touches new old := by
    obtain ⟨-, before, kept⟩ := swept.addresses key watch found
    simpa [Channel.advanced, deliver, ProtocolBtcd.notify] using
      reported.addresses key before height position tx kept stands touches new old
  outpoints prevout watch height position tx found stands spends new old := by
    obtain ⟨-, before, kept⟩ := swept.outpoints prevout watch found
    simpa [Channel.advanced, deliver, ProtocolBtcd.notify] using
      reported.outpoints prevout before height position tx kept stands spends new old

variable (steady : channel.Steady)
  (swept : Swept archive channel.chain channel.protocol next)
  (matched : Matched channel.chain channel.protocol (channel.handled + 1) txs)
include steady swept matched

/-- A transaction of a handled block stands in the notifications as before. -/
theorem appearances_old {height position : Nat} {tx : Transaction Digest}
    (stands : channel.chain.At height position tx) (old : height ≤ channel.handled) :
    appearances tx (channel.advanced rest next
      [.notifyConnected header (channel.handled + 1) txs received redeemed]).sent =
        appearances tx channel.sent := by
  have absent : tx ∉ txs := by
    intro member
    obtain ⟨place, also⟩ := matched.stand tx member
    obtain ⟨same, -⟩ := stands.unique also rfl
    omega
  have subscribed : next.subscribedBlocks = true := swept.subscribed.trans steady.subscribed
  simp [Channel.advanced, deliver, appearances_append, appearances_notify subscribed,
    List.count_eq_zero_of_not_mem absent]

/-- A transaction of the block stands in its notification. -/
theorem appearances_new {position : Nat} {tx : Transaction Digest}
    (stands : channel.chain.At (channel.handled + 1) position tx) (member : tx ∈ txs) :
    appearances tx (channel.advanced rest next
      [.notifyConnected header (channel.handled + 1) txs received redeemed]).sent =
        [channel.handled + 1] := by
  have none : appearances tx channel.sent = [] := by
    refine appearances_eq_nil fun height header earlier sent inside => ?_
    obtain ⟨old, stand⟩ := steady.past height header earlier sent
    obtain ⟨place, also⟩ := stand tx inside
    obtain ⟨same, -⟩ := stands.unique also rfl
    omega
  have subscribed : next.subscribedBlocks = true := swept.subscribed.trans steady.subscribed
  simp [Channel.advanced, deliver, appearances_append, appearances_notify subscribed, none,
    List.count_eq_one_of_mem matched.once member, Post.overflows]

theorem Reported.notified (reported : channel.Reported) :
    (channel.advanced rest next
      [.notifyConnected header (channel.handled + 1) txs received redeemed]).Reported where
  addresses key watch height position tx found stands touches new old := by
    obtain ⟨-, before, kept⟩ := swept.addresses key watch found
    rcases Nat.lt_or_ge channel.handled height with above | below
    · obtain rfl : height = channel.handled + 1 := le_antisymm old above
      refine appearances_new steady swept matched stands ?_
      refine matched.touching key before position tx kept (fun passed cursor => ?_) stands touches
      obtain ⟨same, same_cursor, -, read⟩ := steady.addresses key before kept
      obtain rfl : same = passed := Option.some.inj (same_cursor.symm.trans cursor)
      by_contra high
      have low := read _ position tx stands touches (not_lt.mp high)
      have primed : channel.primedKeys key < channel.handled + 1 := new
      omega
    · rw [appearances_old steady swept matched stands below]
      exact reported.addresses key before height position tx kept stands touches new below
  outpoints prevout watch height position tx found stands spends new old := by
    obtain ⟨-, before, kept⟩ := swept.outpoints prevout watch found
    rcases Nat.lt_or_ge channel.handled height with above | below
    · obtain rfl : height = channel.handled + 1 := le_antisymm old above
      refine appearances_new steady swept matched stands ?_
      refine matched.spending prevout before position tx kept ?_ stands spends
      rintro ⟨entry, member, confirmed, level, -⟩
      have low := steady.outpoints prevout before kept entry member confirmed
      have primed : channel.primedPoints prevout < channel.handled + 1 := new
      omega
    · rw [appearances_old steady swept matched stands below]
      exact reported.outpoints prevout before height position tx kept stands spends new below

theorem Steady.notified (depicts : archive.Depicts channel.chain)
    (prompt : channel.Prompt (channel.handled + 1))
    (within : channel.handled + 1 ≤ channel.chain.top)
    (left : rest = (List.range' (channel.handled + 1 + 1)
      (channel.chain.top - (channel.handled + 1))).map .doConnected) :
    (channel.advanced rest next
      [.notifyConnected header (channel.handled + 1) txs received redeemed]).Steady where
  subscribed := swept.subscribed.trans steady.subscribed
  behind := within
  pending := left
  addresses key watch found := by
    obtain ⟨current, before, kept⟩ := swept.addresses key watch found
    refine ⟨_, current, le_rfl, fun height position tx stands touches _ => ?_⟩
    change height ≤ max (channel.handled + 1) (channel.primedKeys key)
    obtain ⟨passed, cursor, -, read⟩ := steady.addresses key before kept
    rcases Nat.lt_or_ge passed height with unread | low
    · have late := prompt.addresses key before height position tx kept
        (fun other same => Option.some.inj (cursor.symm.trans same) ▸ unread) stands touches
      exact late.trans (le_max_left _ _)
    · have earlier := read height position tx stands touches low
      omega
  outpoints prevout watch found entry member confirmed := by
    obtain ⟨current, before, kept⟩ := swept.outpoints prevout watch found
    change entry.height ≤ max (channel.handled + 1) (channel.primedPoints prevout)
    rw [current] at member
    obtain ⟨tx, stands, hashed, spends⟩ :=
      (depicts.spenders _ _ _ _).mp ⟨entry, member, confirmed, rfl, rfl, rfl⟩
    by_cases unread : before.Unread entry.height entry.position tx.hash
    · have late := prompt.outpoints prevout before _ _ tx kept unread stands spends
      exact late.trans (le_max_left _ _)
    · obtain ⟨old, seen, settled, level, -⟩ := not_not.mp unread
      have earlier := steady.outpoints prevout before kept old seen settled
      omega
  past height other earlier member := by
    change _ ∈ channel.sent ++ _ at member
    change height ≤ channel.handled + 1 ∧ _
    rcases List.mem_append.mp member with sent | now
    · obtain ⟨old, stand⟩ := steady.past height other earlier sent
      exact ⟨by omega, stand⟩
    · obtain ⟨rfl, rfl⟩ := mem_notify (by simpa using now)
      exact ⟨le_rfl, matched.stand⟩

end Strand

theorem step_running {event : Event Digest} (running : channel.stopped = false) :
    channel.step options event = channel.act options event := by
  simp [step, running]

theorem Sound.strand (sound : channel.Sound) (steady : channel.Steady)
    (depicts : archive.Depicts channel.chain) (timely : channel.Timely (.strand archive)) :
    (channel.act options (.strand archive)).Sound := by
  rw [act]
  cases queued : channel.queue with
  | nil => simpa [queued] using sound
  | cons task rest =>
      obtain ⟨rfl, within, left⟩ := steady.next queued
      have outcome : Connected archive channel.chain (channel.handled + 1) channel.protocol
          (channel.protocol.doConnected options archive (fun _ => false) (channel.handled + 1)) :=
        doConnected_cases depicts within channel.protocol
      dsimp only
      generalize channel.protocol.doConnected options archive (fun _ => false)
        (channel.handled + 1) = result at outcome ⊢
      cases outcome with
      | overflowed swept =>
          exact ⟨sound.reported.overflowed swept, fun running => by cases running⟩
      | notified swept matched =>
          have prompt := timely _ _ queued
          exact ⟨sound.reported.notified steady swept matched,
            fun _ => steady.notified swept matched depicts prompt within left⟩

theorem step_sound (event : Event Digest) (sound : channel.Sound) (reads : channel.Reads event)
    (timely : channel.Timely event) : (channel.step options event).Sound := by
  cases running : channel.stopped with
  | true => simpa [step, running] using sound
  | false =>
      have steady := sound.steady running
      rw [step_running running]
      cases event with
      | strand archive => exact sound.strand steady reads timely
      | organize block =>
          dsimp only [act]
          split_ifs with fresh
          · exact ⟨sound.reported.organized steady.behind, fun _ => steady.organized⟩
          · exact sound
      | loadTxFilter archive reload keys points =>
          have load : Loaded archive channel.chain (channel.protocol.reloaded reload)
              (channel.protocol.doLoadTxFilter options archive.toArchive (fun _ => false) reload
                keys points).1 :=
            doLoadTxFilter_loaded reads _ reload keys points channel.protocol
          exact ⟨sound.reported.loaded load steady.behind, fun _ => steady.loaded load reads⟩
      | notifyReceived archive keys =>
          exact sound.legacy (doNotifyReceived_same _ _ _ _)
      | stopNotifyReceived keys =>
          exact sound.legacy (doStopNotifyReceived_same _ _)
      | notifySpent points =>
          exact sound.legacy (doNotifySpent_same _ _ _)
      | stopNotifySpent points =>
          exact sound.legacy (doStopNotifySpent_same _ _)

/-- In a run whose events read no match past their block, every match of a filter
    watch in a block connected since its priming stands in one notification. -/
theorem live_reported (options : Options) (chain : Chain Digest) (events : List (Event Digest))
    (reads : ∀ visit ∈ Run.steps (step options) (start chain) events, visit.1.Reads visit.2)
    (timely : ∀ visit ∈ Run.steps (step options) (start chain) events, visit.1.Timely visit.2) :
    (∀ visit ∈ Run.steps (step options) (start chain) events, visit.1.Reported) ∧
      (Run.final (step options) (start chain) events).Reported := by
  have keeps : ∀ (channel : Channel Digest) (event : Event Digest), channel.Sound →
      channel.Reads event ∧ channel.Timely event → (channel.step options event).Sound :=
    fun channel event sound met => step_sound event sound met.1 met.2
  have all : ∀ visit ∈ Run.steps (step options) (start chain) events,
      visit.1.Reads visit.2 ∧ visit.1.Timely visit.2 :=
    fun visit member => ⟨reads visit member, timely visit member⟩
  refine ⟨fun visit member => ?_, ?_⟩
  · exact (Run.invariant_steps Sound _ keeps (start_sound chain) all visit member).reported
  · exact (Run.invariant_final Sound _ keeps (start_sound chain) all).reported

section Late

/-- The event of the top block reads no match past it. -/
theorem prompt_top : channel.Prompt channel.chain.top :=
  ⟨fun _ _ _ _ _ _ _ stands _ => stands.le_top, fun _ _ _ _ _ _ _ stands _ => stands.le_top⟩

def payment : Transaction Nat := ⟨1, [], [7]⟩

def redemption : Transaction Nat := ⟨2, [⟨toLex (9, 0), 8⟩], []⟩

def genesis : Chain Nat := ⟨[], [], by decide⟩

def first : Chain Nat := ⟨[], [[payment]], by decide⟩

def second : Chain Nat := ⟨[], [[payment], [redemption]], by decide⟩

def ahead : Chain Nat := ⟨[], [[], [payment]], by decide⟩

def archiveOf (chain : Chain Nat) : BlockArchive Nat := chain.archive fun height => ⟨height, 0⟩

/-- Each event runs before the next block. -/
def inTime : List (Event Nat) :=
  [.loadTxFilter (archiveOf genesis) true [7] [toLex (9, 0)], .organize [payment],
    .strand (archiveOf first), .organize [redemption], .strand (archiveOf second)]

/-- Two blocks are organized before the event of the first one runs. -/
def behindTime : List (Event Nat) :=
  [.loadTxFilter (archiveOf genesis) true [7] [], .organize [], .organize [payment],
    .strand (archiveOf ahead), .strand (archiveOf ahead)]

theorem inTime_reads : ∀ visit ∈ Run.steps (step ⟨10, 100⟩) (start genesis) inTime,
    visit.1.Reads visit.2 := by
  intro visit member
  simp only [inTime, Run.steps, List.mem_cons, List.not_mem_nil, or_false] at member
  rcases member with rfl | rfl | rfl | rfl | rfl
  · exact genesis.archive_depicts _
  · trivial
  · exact first.archive_depicts _
  · trivial
  · exact second.archive_depicts _

theorem inTime_timely : ∀ visit ∈ Run.steps (step ⟨10, 100⟩) (start genesis) inTime,
    visit.1.Timely visit.2 := by
  intro visit member
  simp only [inTime, Run.steps, List.mem_cons, List.not_mem_nil, or_false] at member
  rcases member with rfl | rfl | rfl | rfl | rfl
  · trivial
  · trivial
  · intro link rest queued
    cases queued
    exact prompt_top
  · trivial
  · intro link rest queued
    cases queued
    exact prompt_top

/-- A payment to a watched address and the spend of a watched outpoint are each
    notified once, with their blocks. -/
theorem live_reported_inTime :
    appearances payment (Run.final (step ⟨10, 100⟩) (start genesis) inTime).sent = [1] ∧
      appearances redemption (Run.final (step ⟨10, 100⟩) (start genesis) inTime).sent = [2] := by
  obtain ⟨-, reported⟩ := live_reported ⟨10, 100⟩ genesis inTime inTime_reads inTime_timely
  constructor
  · exact reported.addresses 7 ⟨some 2⟩ 1 0 payment (by decide +kernel) ⟨[payment], rfl, rfl⟩
      (by decide) (by decide +kernel) (by decide +kernel)
  · exact reported.outpoints (toLex (9, 0)) ⟨[⟨2, 2, 0, 0, true⟩]⟩ 2 0 redemption
      (by decide +kernel) ⟨[redemption], rfl, rfl⟩ (by decide) (by decide +kernel)
      (by decide +kernel)

/-- The payment is read with the event of the block before its own, and not notified. -/
theorem live_unreported :
    ¬∀ (options : Options) (chain : Chain Nat) (events : List (Event Nat)),
      (∀ visit ∈ Run.steps (step options) (start chain) events, visit.1.Reads visit.2) →
        (Run.final (step options) (start chain) events).Reported := by
  intro all
  have reported := all ⟨10, 100⟩ genesis behindTime (by
    intro visit member
    simp only [behindTime, Run.steps, List.mem_cons, List.not_mem_nil, or_false] at member
    rcases member with rfl | rfl | rfl | rfl | rfl
    · exact genesis.archive_depicts _
    · trivial
    · trivial
    · exact ahead.archive_depicts _
    · exact ahead.archive_depicts _)
  have lost := reported.addresses 7 ⟨some 2⟩ 2 0 payment (by decide +kernel)
    ⟨[payment], rfl, rfl⟩ (by decide) (by decide +kernel) (by decide +kernel)
  exact absurd lost (by decide +kernel)

end Late

end Channel

end LibbitcoinServer.Btcd
