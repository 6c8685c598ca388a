import LibbitcoinServer.Lib.Bytes
import LibbitcoinServer.Zmq.Topics

/-! # The stream of a topic

A subscriber counts the notifications of a topic by the numbers that they carry, and reads in
the sequence bodies which blocks were connected and disconnected.  Handlers are posted by the
callbacks of the node and run later, among the frames of the subscriber.  The numbers have no
gaps, and the bodies replay the chain.
-/

namespace LibbitcoinServer.Zmq

/-! ## Sequence bodies -/

/-- What a subscriber reads in a sequence body. -/
structure SequenceEvent where
  label : Label
  hash : Chunk
  pool : Option UInt64
  deriving DecidableEq

def Label.ofValue (value : UInt8) : Option Label :=
  [Label.blockConnected, .blockDisconnected, .transactionAccepted, .transactionRemoved].find?
    fun label => label.toValue = value

def readSequence (body : Chunk) : Option SequenceEvent := do
  let value ← body[32]?
  let label ← Label.ofValue value
  let hash := (body.take 32).reverse
  let rest := body.drop 33
  if rest.length = 8 then some ⟨label, hash, some (UInt64.ofNat (Bytes.number rest))⟩
  else if rest = [] then some ⟨label, hash, none⟩
  else none

def SequenceEvent.body (event : SequenceEvent) : Chunk :=
  sequenceBody event.label event.hash (event.pool.getD 0)

/-- A transaction has a number of the pool, and a block has none. -/
def SequenceEvent.Formed (event : SequenceEvent) : Prop :=
  event.hash.length = 32 ∧ (event.pool.isSome ↔
    event.label = .transactionAccepted ∨ event.label = .transactionRemoved)

theorem poolBytes_eq (pool : UInt64) :
    ((List.range 8).map fun byte => (pool >>> (8 * byte).toUInt64).toUInt8) =
      Bytes.littleEndian 8 pool.toNat := by
  rw [Bytes.littleEndian_eq_map]
  refine List.map_congr_left fun byte member => ?_
  have low : byte < 8 := List.mem_range.mp member
  have shift : (8 * byte).toUInt64.toNat % 64 = 8 * byte := by
    rw [Nat.toUInt64, UInt64.toNat_ofNat']
    omega
  have scale : 2 ^ (8 * byte) = 256 ^ byte := pow_mul 2 8 byte
  rw [← UInt8.toNat_inj, UInt64.toNat_toUInt8, UInt64.toNat_shiftRight, shift,
    Nat.shiftRight_eq_div_pow, scale, UInt8.toNat_ofNat']

@[simp] theorem Label.ofValue_toValue (label : Label) : ofValue label.toValue = some label := by
  cases label <;> decide

theorem readSequence_append {hash rest : Chunk} (length : hash.length = 32) (label : Label) :
    readSequence (hash.reverse ++ [label.toValue] ++ rest) =
      if rest.length = 8 then some ⟨label, hash, some (UInt64.ofNat (Bytes.number rest))⟩
      else if rest = [] then some ⟨label, hash, none⟩
      else none := by
  have reversed : hash.reverse.length = 32 := by rw [List.length_reverse, length]
  have value : (hash.reverse ++ [label.toValue] ++ rest)[32]? = some label.toValue := by
    simp [List.append_assoc, reversed]
  have first : (hash.reverse ++ [label.toValue] ++ rest).take 32 = hash.reverse := by
    rw [List.append_assoc, List.take_left' reversed]
  have last : (hash.reverse ++ [label.toValue] ++ rest).drop 33 = rest := by
    apply List.drop_left'
    rw [List.length_append, reversed, List.length_singleton]
  rw [readSequence, value, Option.bind_eq_bind, Option.bind_some, Label.ofValue_toValue,
    Option.bind_eq_bind, Option.bind_some, first, last, List.reverse_reverse]

/-- A subscriber reads in a body what it was made of. -/
theorem readSequence_body {event : SequenceEvent} (formed : event.Formed) :
    readSequence event.body = some event := by
  obtain ⟨label, hash, pool⟩ := event
  obtain ⟨length, pooled⟩ := formed
  rw [SequenceEvent.body, sequenceBody]
  dsimp only at length pooled ⊢
  rw [readSequence_append length]
  cases pool with
  | none =>
      have block : ¬(label = .transactionAccepted ∨ label = .transactionRemoved) := by
        simpa using pooled
      simp [block]
  | some pool =>
      have tx : label = .transactionAccepted ∨ label = .transactionRemoved := pooled.mp rfl
      have small : pool.toNat < 256 ^ 8 := pool.toNat_lt
      rw [if_pos tx, Option.getD_some, poolBytes_eq,
        if_pos (Bytes.length_littleEndian 8 pool.toNat), Bytes.number_littleEndian small,
        UInt64.ofNat_toNat]

/-- Keys are digests. -/
structure Archive.Keyed (archive : Archive) : Prop where
  header : ∀ {link hash}, archive.getHeaderKey link = some hash → hash.length = 32
  tx : ∀ {link hash}, archive.getTxKey link = some hash → hash.length = 32

/-! ## What a channel appends -/

def Body.chunk? : Body → Option Chunk
  | .chunk bytes => some bytes
  | .tx _ | .block _ => none

namespace ProtocolBitcoindZmq

/-- The notifications of a topic. -/
def stream (protocol : ProtocolBitcoindZmq) (topic : Topic) : List Notification :=
  protocol.sent.filter fun notification => notification.topic = topic

/-- The sequence bodies. -/
def bodies (protocol : ProtocolBitcoindZmq) : List Chunk :=
  (protocol.stream .sequence).filterMap fun notification => notification.body.chunk?

theorem chunks_map_body (events : List SequenceEvent) :
    (events.map fun event => Body.chunk event.body).filterMap Body.chunk? =
      events.map SequenceEvent.body := by
  simp [List.filterMap_map, Function.comp_def, Body.chunk?]

theorem bodies_eq (protocol : ProtocolBitcoindZmq) :
    protocol.bodies =
      ((protocol.stream .sequence).map Notification.body).filterMap Body.chunk? := by
  rw [List.filterMap_map]
  rfl

end ProtocolBitcoindZmq

/-- What handlers append to a channel, with the sequence events in it. -/
inductive Appends (protocol : ProtocolBitcoindZmq) :
    List SequenceEvent → ProtocolBitcoindZmq → Prop where
  | nil : Appends protocol [] protocol
  | other {events : List SequenceEvent} {middle : ProtocolBitcoindZmq} {topic : Topic}
      (before : Appends protocol events middle) (different : topic ≠ .sequence) (body : Body) :
      Appends protocol events (middle.publish topic body)
  | block {events : List SequenceEvent} {middle : ProtocolBitcoindZmq} {label : Label}
      (before : Appends protocol events middle)
      (block : label = .blockConnected ∨ label = .blockDisconnected) (hash : Chunk) :
      Appends protocol (events ++ [⟨label, hash, none⟩])
        (middle.publish .sequence (.chunk (sequenceBody label hash)))
  | accepted {events : List SequenceEvent} {middle : ProtocolBitcoindZmq}
      (before : Appends protocol events middle) (hash : Chunk) :
      Appends protocol (events ++ [⟨.transactionAccepted, hash, some middle.pool⟩])
        { middle.publish .sequence
            (.chunk (sequenceBody .transactionAccepted hash middle.pool)) with
          pool := middle.pool + 1 }

namespace Appends

variable {protocol middle after : ProtocolBitcoindZmq} {events more : List SequenceEvent}

theorem trans (first : Appends protocol events middle) (second : Appends middle more after) :
    Appends protocol (events ++ more) after := by
  induction second with
  | nil =>
      rw [List.append_nil]
      exact first
  | other _ different body ih => exact ih.other different body
  | block _ block hash ih =>
      rw [← List.append_assoc]
      exact ih.block block hash
  | accepted _ hash ih =>
      rw [← List.append_assoc]
      exact ih.accepted hash

theorem subscribed (appends : Appends protocol events after) :
    after.subscribed = protocol.subscribed := by
  induction appends with
  | nil => rfl
  | other _ _ _ ih | block _ _ _ ih | accepted _ _ ih => exact ih

theorem stopped (appends : Appends protocol events after) : after.stopped = protocol.stopped := by
  induction appends with
  | nil => rfl
  | other _ _ _ ih | block _ _ _ ih | accepted _ _ ih => exact ih

theorem sequence (appends : Appends protocol events after) :
    (after.stream .sequence).map Notification.body =
      (protocol.stream .sequence).map Notification.body ++
        events.map fun event => .chunk event.body := by
  induction appends with
  | nil => simp
  | other _ different body ih =>
      rw [← ih]
      simp [ProtocolBitcoindZmq.stream, ProtocolBitcoindZmq.publish, different]
  | block _ _ hash ih | accepted _ hash ih =>
      rw [List.map_append, ← List.append_assoc, ← ih]
      simp [ProtocolBitcoindZmq.stream, ProtocolBitcoindZmq.publish, SequenceEvent.body]

theorem bodies (appends : Appends protocol events after) :
    after.bodies = protocol.bodies ++ events.map SequenceEvent.body := by
  rw [ProtocolBitcoindZmq.bodies_eq, ProtocolBitcoindZmq.bodies_eq, appends.sequence,
    List.filterMap_append, ProtocolBitcoindZmq.chunks_map_body]

end Appends

namespace ProtocolBitcoindZmq

variable {protocol after : ProtocolBitcoindZmq} {events : List SequenceEvent}

/-- The notifications of each topic are numbered from zero. -/
structure Counted (protocol : ProtocolBitcoindZmq) : Prop where
  counted : ∀ topic, protocol.counters topic = UInt32.ofNat (protocol.stream topic).length
  numbered : ∀ topic, (protocol.stream topic).map Notification.sequence =
    (List.range (protocol.stream topic).length).map UInt32.ofNat

theorem stream_publish (protocol : ProtocolBitcoindZmq) (topic other : Topic) (body : Body) :
    (protocol.publish topic body).stream other =
      if topic = other then protocol.stream other ++ [⟨topic, body, protocol.counters topic⟩]
      else protocol.stream other := by
  by_cases same : topic = other
  · simp [stream, publish, same]
  · simp [stream, publish, same]

theorem counters_publish (protocol : ProtocolBitcoindZmq) (topic : Topic) (body : Body) :
    (protocol.publish topic body).counters =
      Function.update protocol.counters topic (protocol.counters topic + 1) := rfl

/-- A publication takes the next number of its topic. -/
theorem Counted.publish (numbers : protocol.Counted) (topic : Topic) (body : Body) :
    (protocol.publish topic body).Counted where
  counted := by
    intro other
    rw [stream_publish, counters_publish]
    by_cases same : topic = other
    · cases same
      rw [if_pos rfl, List.length_append, List.length_singleton, Function.update_self,
        numbers.counted, UInt32.ofNat_add]
      rfl
    · rw [if_neg same, Function.update_of_ne (Ne.symm same), numbers.counted]
  numbered := by
    intro other
    rw [stream_publish]
    by_cases same : topic = other
    · cases same
      rw [if_pos rfl, List.length_append, List.length_singleton, List.range_succ, List.map_append,
        List.map_append, numbers.numbered, List.map_singleton, List.map_singleton,
        ← numbers.counted]
    · rw [if_neg same, numbers.numbered]

/-- What has been told of the pool is numbered from zero. -/
structure Told (protocol : ProtocolBitcoindZmq) (events : List SequenceEvent) : Prop
    extends protocol.Counted where
  formed : ∀ event ∈ events, event.Formed
  told : (protocol.stream .sequence).map Notification.body =
    events.map fun event => .chunk event.body
  pool : protocol.pool = UInt64.ofNat (events.filterMap SequenceEvent.pool).length
  pooled : events.filterMap SequenceEvent.pool =
    (List.range (events.filterMap SequenceEvent.pool).length).map UInt64.ofNat

theorem pool_append {events : List SequenceEvent} {pool : UInt64}
    (counts : pool = UInt64.ofNat (events.filterMap SequenceEvent.pool).length)
    (pooled : events.filterMap SequenceEvent.pool =
      (List.range (events.filterMap SequenceEvent.pool).length).map UInt64.ofNat) (label : Label)
    (hash : Chunk) :
    let event : SequenceEvent := ⟨label, hash, some pool⟩
    let next := (events ++ [event]).filterMap SequenceEvent.pool
    pool + 1 = UInt64.ofNat next.length ∧ next = (List.range next.length).map UInt64.ofNat := by
  intro event next
  have added : next = events.filterMap SequenceEvent.pool ++ [pool] := by
    simp [next, event]
  rw [added, List.length_append, List.length_singleton, List.range_succ, List.map_append,
    List.map_singleton, ← counts, ← pooled]
  refine ⟨?_, rfl⟩
  rw [UInt64.ofNat_add, ← counts]
  rfl

theorem Told.appends {more : List SequenceEvent} (told : protocol.Told events)
    (appends : Appends protocol more after) (formed : ∀ event ∈ more, event.Formed) :
    after.Told (events ++ more) := by
  have bodies : (after.stream .sequence).map Notification.body =
      (events ++ more).map fun event => .chunk event.body := by
    rw [appends.sequence, told.told, List.map_append]
  have all : ∀ event ∈ events ++ more, event.Formed := by
    intro event member
    cases List.mem_append.mp member with
    | inl early => exact told.formed event early
    | inr late => exact formed event late
  induction appends with
  | nil =>
      rw [List.append_nil]
      exact told
  | @other more middle topic before _ body ih =>
      have earlier := ih formed (by rw [before.sequence, told.told, List.map_append]) all
      exact ⟨earlier.toCounted.publish topic body, all, bodies, earlier.pool, earlier.pooled⟩
  | @block more middle label before block hash ih =>
      rw [← List.append_assoc] at bodies all ⊢
      have earlier := ih (fun event member => formed event (List.mem_append_left _ member))
        (by rw [before.sequence, told.told, List.map_append])
        fun event member => all event (List.mem_append_left _ member)
      have same : (events ++ more ++ [SequenceEvent.mk label hash none]).filterMap
          SequenceEvent.pool = (events ++ more).filterMap SequenceEvent.pool := by simp
      refine ⟨earlier.toCounted.publish _ _, all, bodies, ?_, ?_⟩
      · rw [same]
        exact earlier.pool
      · rw [same]
        exact earlier.pooled
  | @accepted more middle before hash ih =>
      rw [← List.append_assoc] at bodies all ⊢
      have earlier := ih (fun event member => formed event (List.mem_append_left _ member))
        (by rw [before.sequence, told.told, List.map_append])
        fun event member => all event (List.mem_append_left _ member)
      have counted := earlier.toCounted.publish .sequence
        (.chunk (sequenceBody .transactionAccepted hash middle.pool))
      have next := pool_append earlier.pool earlier.pooled .transactionAccepted hash
      exact ⟨⟨counted.counted, counted.numbered⟩, all, bodies, next.1, next.2⟩

/-- What was told is told still where no more is. -/
theorem Told.same (told : protocol.Told events) (sent : after.sent = protocol.sent)
    (counters : after.counters = protocol.counters) (pool : after.pool = protocol.pool) :
    after.Told events := by
  have stream : after.stream = protocol.stream := by
    funext topic
    rw [ProtocolBitcoindZmq.stream, ProtocolBitcoindZmq.stream, sent]
  constructor
  · constructor
    · rw [counters, stream]
      exact told.counted
    · rw [stream]
      exact told.numbered
  · exact told.formed
  · rw [stream, told.told]
  · rw [pool, told.pool]
  · exact told.pooled

/-! ## What the handlers append -/

variable {archive : Archive}

theorem appends_publishIf {topic : Topic} (different : topic ≠ .sequence) (body : Body) :
    Appends protocol [] (protocol.publishIf topic body) := by
  unfold publishIf
  split_ifs
  · exact Appends.nil.other different body
  · exact .nil

theorem appends_publishBlock {label : Label}
    (block : label = .blockConnected ∨ label = .blockDisconnected) (hash : Chunk) :
    Appends protocol (if protocol.subscribed .sequence then [⟨label, hash, none⟩] else [])
      (protocol.publishIf .sequence (.chunk (sequenceBody label hash))) := by
  unfold publishIf
  split_ifs
  · exact Appends.nil.block block hash
  · exact .nil

/-- A loop whose every turn appends no event, appends none. -/
theorem appends_foldl {Item : Type} {turn : ProtocolBitcoindZmq → Item → ProtocolBitcoindZmq}
    (keeps : ∀ middle item, Appends middle [] (turn middle item)) (items : List Item) :
    Appends protocol [] (items.foldl turn protocol) := by
  induction items generalizing protocol with
  | nil => exact .nil
  | cons item items ih => exact (keeps protocol item).trans ih

theorem appends_handleWireTx (message : Chunk) :
    Appends protocol [] (protocol.handleWireTx message) := by
  unfold handleWireTx
  split_ifs
  · exact .nil
  · exact appends_publishIf (by decide) _

theorem appends_handleWireBlock (message : WireBlock) :
    Appends protocol [] (protocol.handleWireBlock message) := by
  unfold handleWireBlock
  have txs : Appends protocol [] (if protocol.subscribed .rawTx then
      message.transactions.foldl (fun protocol item => protocol.publish .rawTx (.tx item)) protocol
      else protocol) := by
    split_ifs
    · exact appends_foldl (fun middle item => Appends.nil.other (by decide) _) _
    · exact .nil
  by_cases stopped : protocol.stopped = true
  · rw [if_pos stopped]
    exact .nil
  · rw [if_neg stopped]
    dsimp only
    by_cases organized : message.organized = true
    · rw [if_pos organized]
      exact txs.trans (appends_publishIf (by decide) _)
    · rw [if_neg organized]
      exact txs

theorem appends_publishTx (link : Nat) :
    Appends protocol [] (protocol.publishTx archive link false) := by
  unfold publishTx
  cases archive.getTxKey link with
  | none => exact .nil
  | some hash => exact appends_publishIf (by decide) _

theorem appends_publishTxs (link : Nat) :
    Appends protocol [] (protocol.publishTxs archive link) := by
  unfold publishTxs
  split_ifs
  · exact appends_foldl (fun middle tx => appends_publishTx tx) _
  · exact .nil

/-- A frame tells nothing. -/
theorem sent_handleSubscribe (protocol : ProtocolBitcoindZmq) (frame : Frame) :
    (protocol.handleSubscribe frame).1.sent = protocol.sent ∧
      (protocol.handleSubscribe frame).1.counters = protocol.counters ∧
      (protocol.handleSubscribe frame).1.pool = protocol.pool := by
  unfold handleSubscribe
  split_ifs
  · exact ⟨rfl, rfl, rfl⟩
  · cases protocol.countSubscription frame.cancel <;> exact ⟨rfl, rfl, rfl⟩

/-- The events that a handler of the node's events tells. -/
def told (protocol : ProtocolBitcoindZmq) (archive : Archive) : Chase → List SequenceEvent
  | .organized link => (archive.getHeaderKey link).toList.map fun hash =>
      ⟨.blockConnected, hash, none⟩
  | .reorganized link => (archive.getHeaderKey link).toList.map fun hash =>
      ⟨.blockDisconnected, hash, none⟩
  | .transaction link => (archive.getTxKey link).toList.map fun hash =>
      ⟨.transactionAccepted, hash, some protocol.pool⟩
  | .other => []

theorem told_formed (keyed : archive.Keyed) (value : Chase) :
    ∀ event ∈ protocol.told archive value, event.Formed := by
  intro event member
  cases value with
  | organized link | reorganized link =>
      obtain ⟨hash, found, rfl⟩ := List.mem_map.mp member
      exact ⟨keyed.header (Option.mem_toList.mp found), by simp⟩
  | transaction link =>
      obtain ⟨hash, found, rfl⟩ := List.mem_map.mp member
      exact ⟨keyed.tx (Option.mem_toList.mp found), by simp⟩
  | other => cases member

theorem appends_publishTxs_block {label : Label}
    (block : label = .blockConnected ∨ label = .blockDisconnected) (link : Nat) (hash : Chunk)
    {middle : ProtocolBitcoindZmq} (before : Appends (protocol.publishTxs archive link) [] middle) :
    Appends protocol (if protocol.subscribed .sequence then [⟨label, hash, none⟩] else [])
      (middle.publishIf .sequence (.chunk (sequenceBody label hash))) := by
  have first : Appends protocol [] middle := (appends_publishTxs link).trans before
  rw [← first.subscribed]
  exact first.trans (appends_publishBlock block hash)

theorem appends_doChase (value : Chase) : Appends protocol
    (if !protocol.stopped && protocol.subscribed .sequence then protocol.told archive value else [])
    (protocol.doChase archive value) := by
  cases stopped : protocol.stopped with
  | true =>
      cases value <;>
      · simp only [doChase, doOrganized, doReorganized, doTransaction, stopped, if_true,
          Bool.not_true, Bool.false_and, Bool.false_eq_true, if_false]
        exact .nil
  | false =>
  rw [Bool.not_false, Bool.true_and]
  cases value with
  | organized link =>
      simp only [doChase, doOrganized, stopped, Bool.false_eq_true, if_false, told]
      cases archive.getHeaderKey link with
      | none => simpa using Appends.nil
      | some hash =>
          exact appends_publishTxs_block (.inl rfl) link hash (appends_publishIf (by decide) _)
  | reorganized link =>
      simp only [doChase, doReorganized, stopped, Bool.false_eq_true, if_false, told]
      cases archive.getHeaderKey link with
      | none => simpa using Appends.nil
      | some hash => exact appends_publishTxs_block (.inr rfl) link hash .nil
  | transaction link =>
      simp only [doChase, doTransaction, stopped, Bool.false_eq_true, if_false, told, publishTx]
      cases archive.getTxKey link with
      | none => simpa using Appends.nil
      | some hash =>
          have hashed := @appends_publishIf protocol .hashTx (by decide) (.chunk hash.reverse)
          have pool : (protocol.publishIf .hashTx (.chunk hash.reverse)).pool = protocol.pool := by
            unfold publishIf
            split_ifs <;> rfl
          simp only [Bool.true_and, hashed.subscribed]
          cases protocol.subscribed .sequence with
          | true =>
              rw [← pool]
              exact hashed.accepted hash
          | false => exact hashed
  | other =>
      rw [told, ite_self]
      exact .nil

end ProtocolBitcoindZmq

/-! ## A channel of the node -/

/-- The confirmed chain, top first, and one channel.  A handler that a callback of the node has
    posted waits for its turn. -/
structure Node where
  chain : List Nat
  protocol : ProtocolBitcoindZmq
  posted : List Chase

/-- What may happen next.  Callbacks test the flags of the channel when the node raises an
    event, whether or not the chain is current. -/
inductive Action where
  | connect (link : Nat) (current : Bool)
  | disconnect (current : Bool)
  | transaction (link : Nat)
  | wireTx (message : Chunk)
  | wireBlock (message : WireBlock)
  | frame (frame : Frame)
  | stop
  | turn

def Chase.Archived (archive : Archive) : Chase → Prop
  | .organized link | .reorganized link => (archive.getHeaderKey link).isSome
  | .transaction _ | .other => True

/-- The chain is current when it changes, and a block that is connected is in the archive. -/
def Action.Current (archive : Archive) : Action → Prop
  | .connect link current => current = true ∧ (archive.getHeaderKey link).isSome
  | .disconnect current => current = true
  | _ => True

namespace Node

variable (archive : Archive) (node : Node)

/-- `handle_chase`. -/
def raise (current : Bool) (value : Chase) : Node :=
  if node.protocol.handleChase current value then { node with posted := node.posted ++ [value] }
  else node

def step : Action → Node
  | .connect link current =>
      { node with chain := link :: node.chain }.raise current (.organized link)
  | .disconnect current =>
      match node.chain with
      | [] => node
      | link :: rest => { node with chain := rest }.raise current (.reorganized link)
  | .transaction link => node.raise true (.transaction link)
  | .wireTx message => { node with protocol := node.protocol.handleWireTx message }
  | .wireBlock message => { node with protocol := node.protocol.handleWireBlock message }
  | .frame frame => { node with protocol := (node.protocol.handleSubscribe frame).1 }
  | .stop => { node with protocol := node.protocol.stopping.1 }
  | .turn =>
      match node.posted with
      | [] => node
      | value :: rest =>
          { node with protocol := node.protocol.doChase archive value, posted := rest }

variable {archive} {node : Node}

@[simp] theorem raise_protocol (current : Bool) (value : Chase) :
    (node.raise current value).protocol = node.protocol := by
  unfold raise
  split_ifs <;> rfl

@[simp] theorem raise_chain (current : Bool) (value : Chase) :
    (node.raise current value).chain = node.chain := by
  unfold raise
  split_ifs <;> rfl

/-- Some events have been told. -/
def Tells (node : Node) : Prop := ∃ events, node.protocol.Told events

theorem Tells.step (keyed : archive.Keyed) (tells : node.Tells) (action : Action) :
    (node.step archive action).Tells := by
  obtain ⟨events, told⟩ := tells
  cases action with
  | connect link current =>
      refine ⟨events, ?_⟩
      rw [Node.step, raise_protocol]
      exact told
  | disconnect current =>
      refine ⟨events, ?_⟩
      cases chain : node.chain with
      | nil => simpa only [Node.step, chain] using told
      | cons link rest => simpa only [Node.step, chain, raise_protocol] using told
  | transaction link =>
      refine ⟨events, ?_⟩
      rw [Node.step, raise_protocol]
      exact told
  | wireTx message =>
      exact ⟨_, told.appends (ProtocolBitcoindZmq.appends_handleWireTx message) nofun⟩
  | wireBlock message =>
      exact ⟨_, told.appends (ProtocolBitcoindZmq.appends_handleWireBlock message) nofun⟩
  | frame frame =>
      obtain ⟨sent, counters, pool⟩ := node.protocol.sent_handleSubscribe frame
      exact ⟨events, told.same sent counters pool⟩
  | stop => exact ⟨events, told.same rfl rfl rfl⟩
  | turn =>
      cases posted : node.posted with
      | nil =>
          refine ⟨events, ?_⟩
          simpa only [Node.step, posted] using told
      | cons value rest =>
          have appends := @ProtocolBitcoindZmq.appends_doChase node.protocol archive value
          simp only [Node.step, posted]
          refine ⟨_, told.appends appends ?_⟩
          split_ifs
          · exact ProtocolBitcoindZmq.told_formed keyed value
          · exact nofun

/-- A channel that has just been opened. -/
def opened (chain : List Nat) (maximum : UInt32) : Node where
  chain
  protocol := { maximumSubscriptions := maximum }
  posted := []

theorem told_opened (chain : List Nat) (maximum : UInt32) :
    (opened chain maximum).protocol.Told [] where
  counted _ := rfl
  numbered _ := rfl
  formed := nofun
  told := rfl
  pool := rfl
  pooled := rfl

/-- In every run of a channel each topic is numbered from zero without a gap; what is published
    of the sequence are the bodies of events, blocks without and transactions with a number of
    the pool; its subscriber reads every body back to its event, and the accepted transactions
    are numbered from zero in them, whatever is subscribed and cancelled on the way. -/
theorem stream_numbered (keyed : archive.Keyed) (chain : List Nat) (maximum : UInt32)
    (actions : List Action) :
    let protocol := (Run.final (step archive) (opened chain maximum) actions).protocol
    (∀ topic, (protocol.stream topic).map Notification.sequence =
      (List.range (protocol.stream topic).length).map UInt32.ofNat) ∧
    ∃ events : List SequenceEvent, (∀ event ∈ events, event.Formed) ∧
      (protocol.stream .sequence).map Notification.body =
        events.map (fun event => .chunk event.body) ∧
      protocol.bodies.map readSequence = events.map some ∧
      events.filterMap SequenceEvent.pool =
        (List.range (events.filterMap SequenceEvent.pool).length).map UInt64.ofNat := by
  intro protocol
  have tells : (Run.final (step archive) (opened chain maximum) actions).Tells :=
    Run.always_final (fun _ action tells => tells.step keyed action)
      ⟨[], told_opened chain maximum⟩
  obtain ⟨events, told⟩ := tells
  refine ⟨told.numbered, events, told.formed, told.told, ?_, told.pooled⟩
  have bodies : protocol.bodies = events.map SequenceEvent.body := by
    rw [ProtocolBitcoindZmq.bodies_eq, told.told, ProtocolBitcoindZmq.chunks_map_body]
  rw [bodies, List.map_map]
  exact List.map_congr_left fun event member => readSequence_body (told.formed event member)

/-- The hash of a block is its link, in every byte. -/
private def linkedArchive : Archive where
  getHeaderKey link := some (List.replicate 32 (UInt8.ofNat link))
  getTxKey link := some (List.replicate 32 (UInt8.ofNat link))
  toTransactions link := [2 * link, 2 * link + 1]

private theorem linkedArchive_keyed : linkedArchive.Keyed := by
  constructor
  · intro link hash found
    cases found
    exact List.length_replicate
  · intro link hash found
    cases found
    exact List.length_replicate

private def subscribedRun : List Action :=
  [.frame ⟨Topic.sequence.name, false⟩, .connect 7 true, .transaction 9, .turn, .disconnect true,
    .turn, .connect 8 true, .turn, .turn]

theorem stream_numbered_blocks :
    let protocol := (Run.final (step linkedArchive) (opened [0] 1) subscribedRun).protocol
    protocol.bodies.length = 4 ∧
    (∀ topic, (protocol.stream topic).map Notification.sequence =
      (List.range (protocol.stream topic).length).map UInt32.ofNat) ∧
    ∃ events : List SequenceEvent, (∀ event ∈ events, event.Formed) ∧
      (protocol.stream .sequence).map Notification.body =
        events.map (fun event => .chunk event.body) ∧
      protocol.bodies.map readSequence = events.map some ∧
      events.filterMap SequenceEvent.pool =
        (List.range (events.filterMap SequenceEvent.pool).length).map UInt64.ofNat :=
  ⟨by decide, stream_numbered linkedArchive_keyed [0] 1 subscribedRun⟩

/-! ## The chain of a subscriber -/

/-- The hash of a block that the archive has. -/
def hashOf (archive : Archive) (link : Nat) : Chunk := (archive.getHeaderKey link).getD []

/-- A subscriber keeps the hashes of the chain, top first.  A disconnected block that is not
    its top is an error. -/
def replayBody (chain : List Chunk) (body : Chunk) : Option (List Chunk) := do
  let event ← readSequence body
  match event.label with
  | .blockConnected => some (event.hash :: chain)
  | .blockDisconnected => if chain.head? = some event.hash then some chain.tail else none
  | .transactionAccepted | .transactionRemoved => some chain

def replay (chain : List Chunk) (bodies : List Chunk) : Option (List Chunk) :=
  bodies.foldlM replayBody chain

/-- What a posted handler will do to the chain of a subscriber. -/
def follow (archive : Archive) (chain : List Chunk) : Chase → Option (List Chunk)
  | .organized link => some (hashOf archive link :: chain)
  | .reorganized link =>
      if chain.head? = some (hashOf archive link) then some chain.tail else none
  | .transaction _ | .other => some chain

/-- The channel is open, and its subscriber listens to the sequence. -/
def Listens (node : Node) : Prop :=
  node.protocol.stopped = false ∧ node.protocol.subscribed .sequence = true

/-- The bodies since `earlier` lead the subscriber from the chain it started with towards that
    of the node, and the posted handlers lead it the rest of the way. -/
structure Follows (archive : Archive) (start : List Chunk) (earlier : List Chunk)
    (node : Node) : Prop where
  listens : node.Listens
  chained : ∀ link ∈ node.chain, (archive.getHeaderKey link).isSome
  archived : ∀ value ∈ node.posted, value.Archived archive
  leads : ∃ told middle, node.protocol.bodies = earlier ++ told ∧
    replay start told = some middle ∧
    node.posted.foldlM (follow archive) middle = some (node.chain.map (hashOf archive))

theorem replay_told (keyed : archive.Keyed) (protocol : ProtocolBitcoindZmq) (chain : List Chunk)
    {value : Chase} (archived : value.Archived archive) :
    replay chain ((protocol.told archive value).map SequenceEvent.body) =
      follow archive chain value := by
  have read : ∀ event ∈ protocol.told archive value,
      readSequence event.body = some event := fun event member =>
    readSequence_body (ProtocolBitcoindZmq.told_formed keyed value event member)
  cases value with
  | organized link | reorganized link =>
      obtain ⟨hash, found⟩ := Option.isSome_iff_exists.mp archived
      simp only [ProtocolBitcoindZmq.told, found, Option.toList_some, List.map_cons, List.map_nil,
        List.forall_mem_singleton] at read ⊢
      simp [replay, replayBody, read, follow, hashOf, found]
  | transaction link =>
      cases found : archive.getTxKey link with
      | none => simp [ProtocolBitcoindZmq.told, found, replay, follow]
      | some hash =>
          simp only [ProtocolBitcoindZmq.told, found, Option.toList_some, List.map_cons,
            List.map_nil, List.forall_mem_singleton] at read ⊢
          simp [replay, replayBody, read, follow]
  | other => rfl

namespace Follows

variable {start earlier : List Chunk}

/-- A handler that is posted follows the chain that the node has now. -/
theorem raise {chain : List Nat} {current : Bool} {value : Chase}
    (follows : node.Follows archive start earlier)
    (posts : node.protocol.handleChase current value = true)
    (chained : ∀ link ∈ chain, (archive.getHeaderKey link).isSome)
    (archived : value.Archived archive)
    (leads : follow archive (node.chain.map (hashOf archive)) value =
      some (chain.map (hashOf archive))) :
    ({ node with chain }.raise current value).Follows archive start earlier := by
  rw [Node.raise, if_pos posts]
  refine ⟨follows.listens, chained, ?_, ?_⟩
  · intro event member
    cases List.mem_append.mp member with
    | inl posted => exact follows.archived event posted
    | inr last =>
        cases List.mem_singleton.mp last
        exact archived
  · obtain ⟨told, middle, bodies, replayed, rest⟩ := follows.leads
    refine ⟨told, middle, bodies, replayed, ?_⟩
    dsimp only
    rw [List.foldlM_append, rest, Option.bind_eq_bind, Option.bind_some, List.foldlM_cons, leads]
    rfl

/-- A handler that tells nothing of the chain. -/
theorem same {protocol : ProtocolBitcoindZmq} (follows : node.Follows archive start earlier)
    (listens : { node with protocol }.Listens) (bodies : protocol.bodies = node.protocol.bodies) :
    { node with protocol }.Follows archive start earlier := by
  obtain ⟨told, middle, earlier, leads⟩ := follows.leads
  exact ⟨listens, follows.chained, follows.archived, told, middle, bodies.trans earlier, leads⟩

theorem turn (keyed : archive.Keyed) {value : Chase} {rest : List Chase}
    (follows : node.Follows archive start earlier) (posted : node.posted = value :: rest)
    (listens : { node with protocol := node.protocol.doChase archive value }.Listens) :
    { node with protocol := node.protocol.doChase archive value, posted := rest }.Follows
      archive start earlier := by
  have archived := posted ▸ follows.archived
  refine ⟨listens, follows.chained,
    fun event member => archived event (List.mem_cons_of_mem _ member), ?_⟩
  obtain ⟨told, middle, before, replayed, leads⟩ := follows.leads
  rw [posted, List.foldlM_cons] at leads
  obtain ⟨next, leads, later⟩ := Option.bind_eq_some_iff.mp leads
  have appends := (@ProtocolBitcoindZmq.appends_doChase node.protocol archive value).bodies
  rw [follows.listens.1, follows.listens.2, Bool.not_false, Bool.true_and, if_pos rfl, before,
    List.append_assoc] at appends
  refine ⟨_, next, appends, ?_, later⟩
  rw [replay, List.foldlM_append, ← replay, replayed, Option.bind_eq_bind, Option.bind_some,
    ← replay, replay_told keyed _ _ (archived value List.mem_cons_self), leads]

theorem step (keyed : archive.Keyed) (follows : node.Follows archive start earlier)
    {action : Action} (current : action.Current archive)
    (listens : (node.step archive action).Listens) :
    (node.step archive action).Follows archive start earlier := by
  obtain ⟨live, heard⟩ := follows.listens
  have posts : node.protocol.blocks = true := by simp [ProtocolBitcoindZmq.blocks, heard]
  cases action with
  | connect link flag =>
      obtain ⟨rfl, archived⟩ := current
      apply follows.raise
      · simp [ProtocolBitcoindZmq.handleChase, live, posts]
      · exact List.forall_mem_cons.mpr ⟨archived, follows.chained⟩
      · exact archived
      · rfl
  | disconnect flag =>
      cases current
      cases chain : node.chain with
      | nil => simpa only [Node.step, chain] using follows
      | cons link rest =>
          simp only [Node.step, chain]
          have chained := List.forall_mem_cons.mp (chain ▸ follows.chained)
          apply follows.raise
          · simp [ProtocolBitcoindZmq.handleChase, live, posts]
          · exact chained.2
          · exact chained.1
          · simp [follow, chain]
  | transaction link =>
      apply follows.raise
      · simp [ProtocolBitcoindZmq.handleChase, ProtocolBitcoindZmq.sequences, live, heard]
      · exact follows.chained
      · trivial
      · rfl
  | wireTx message =>
      apply follows.same listens
      simpa using (ProtocolBitcoindZmq.appends_handleWireTx message).bodies
  | wireBlock message =>
      apply follows.same listens
      simpa using (ProtocolBitcoindZmq.appends_handleWireBlock message).bodies
  | frame frame =>
      apply follows.same listens
      have sent := (node.protocol.sent_handleSubscribe frame).1
      rw [ProtocolBitcoindZmq.bodies, ProtocolBitcoindZmq.bodies, ProtocolBitcoindZmq.stream,
        ProtocolBitcoindZmq.stream, sent]
  | stop => cases listens.1
  | turn =>
      cases posted : node.posted with
      | nil => simpa only [Node.step, posted] using follows
      | cons value rest =>
          simp only [Node.step, posted] at listens ⊢
          exact follows.turn keyed posted listens

end Follows

/-- A subscriber who listens to the sequence while the chain is current, and who starts from
    the chain that the handlers posted so far lead to that of the node, comes by the bodies
    alone to a chain that the handlers posted then lead to that of the node: with none left,
    to the chain of the node. -/
theorem sequence_replays (keyed : archive.Keyed) (node : Node) (start : List Chunk)
    (listens : node.Listens) (chained : ∀ link ∈ node.chain, (archive.getHeaderKey link).isSome)
    (archived : ∀ value ∈ node.posted, value.Archived archive)
    (starts : node.posted.foldlM (follow archive) start = some (node.chain.map (hashOf archive)))
    (actions : List Action)
    (current : ∀ visit ∈ Run.steps (step archive) node actions,
      visit.2.Current archive ∧ (visit.1.step archive visit.2).Listens) :
    let after := Run.final (step archive) node actions
    ∃ told middle, after.protocol.bodies = node.protocol.bodies ++ told ∧
      replay start told = some middle ∧
      after.posted.foldlM (follow archive) middle = some (after.chain.map (hashOf archive)) ∧
      (after.posted = [] → replay start told = some (after.chain.map (hashOf archive))) := by
  intro after
  have follows : after.Follows archive start node.protocol.bodies := by
    apply Run.invariant_final (Follows archive start node.protocol.bodies)
      (fun node action => action.Current archive ∧ (node.step archive action).Listens) _ _ current
    · intro node action follows meets
      exact follows.step keyed meets.1 meets.2
    · exact ⟨listens, chained, archived, [], start, (List.append_nil _).symm, rfl, starts⟩
  obtain ⟨told, middle, bodies, replayed, leads⟩ := follows.leads
  refine ⟨told, middle, bodies, replayed, leads, fun idle => ?_⟩
  rw [idle] at leads
  rw [replayed]
  exact leads

private def listening : Node :=
  step linkedArchive (opened [0] 1) (.frame ⟨Topic.sequence.name, false⟩)

theorem sequence_replays_blocks :
    let node := listening
    let after := Run.final (step linkedArchive) node subscribedRun.tail
    after.chain = [8, 0] ∧ after.posted = [] ∧
    ∃ told middle, after.protocol.bodies = node.protocol.bodies ++ told ∧
      replay [hashOf linkedArchive 0] told = some middle ∧
      after.posted.foldlM (follow linkedArchive) middle =
        some (after.chain.map (hashOf linkedArchive)) ∧
      (after.posted = [] → replay [hashOf linkedArchive 0] told =
        some (after.chain.map (hashOf linkedArchive))) := by
  have all : ∀ visit ∈ Run.steps (step linkedArchive) listening subscribedRun.tail,
      visit.2.Current linkedArchive ∧ (visit.1.step linkedArchive visit.2).Listens := by
    simp only [subscribedRun, List.tail_cons, Run.steps, List.forall_mem_cons]
    refine ⟨?_, ?_, ?_, ?_, ?_, ?_, ?_, ?_, List.forall_mem_nil _⟩
    all_goals exact ⟨by simp [Action.Current, linkedArchive], by decide, by decide⟩
  refine ⟨by decide, by decide, ?_⟩
  exact sequence_replays linkedArchive_keyed listening [hashOf linkedArchive 0]
    ⟨by decide, by decide⟩ (fun link _ => rfl) (List.forall_mem_nil _) rfl subscribedRun.tail all

end Node

end LibbitcoinServer.Zmq
