import LibbitcoinServer.Lib.Run

/-! # Topics of the zmq publisher

A subscriber sends frames that add or cancel a topic prefix.  The protocol keeps
one flag for each topic, set by the last frame that matches the topic, and
publishes what its flags admit.  The frames read as a bag of prefixes admit the
same only where each cancel leaves no prefix of a topic that it matches.
-/

namespace LibbitcoinServer.Zmq

abbrev Chunk := List UInt8

inductive Topic where
  | hashBlock
  | rawBlock
  | hashTx
  | rawTx
  | sequence
  deriving DecidableEq, Repr

def Topic.text : Topic → String
  | .hashBlock => "hashblock"
  | .rawBlock => "rawblock"
  | .hashTx => "hashtx"
  | .rawTx => "rawtx"
  | .sequence => "sequence"

/-- The bytes of a topic's text. -/
def Topic.name (topic : Topic) : Chunk := topic.text.toList.map fun char => char.toNat.toUInt8

/-- The labels of a sequence body. -/
inductive Label where
  | blockConnected
  | blockDisconnected
  | transactionAccepted
  | transactionRemoved
  deriving DecidableEq, Repr

def Label.toValue : Label → UInt8
  | .blockConnected => 'C'.toNat.toUInt8
  | .blockDisconnected => 'D'.toNat.toUInt8
  | .transactionAccepted => 'A'.toNat.toUInt8
  | .transactionRemoved => 'R'.toNat.toUInt8

/-- `wire_block`: the transactions of a block, and whether it was organized. -/
structure WireBlock where
  transactions : List Chunk
  organized : Bool

inductive Body where
  | chunk (bytes : Chunk)
  | tx (tx : Chunk)
  | block (block : WireBlock)

structure Notification where
  topic : Topic
  body : Body
  sequence : UInt32

/-- The queries of `archive()` that the publisher makes; `none` stands for `null_hash`. -/
structure Archive where
  getHeaderKey : Nat → Option Chunk
  getTxKey : Nat → Option Chunk
  toTransactions : Nat → List Nat

/-- The calls that a handler makes of the node. -/
inductive Demand where
  | wireTx (demand : Bool)
  | wireBlock (demand : Bool)
  deriving DecidableEq, Repr

structure ProtocolBitcoindZmq where
  maximumSubscriptions : UInt32
  subscribed : Topic → Bool := fun _ => false
  subscriptions : UInt32 := 0
  counters : Topic → UInt32 := fun _ => 0
  pool : UInt64 := 0
  stopped : Bool := false
  sent : List Notification := []

inductive Chase where
  | organized (link : Nat)
  | transaction (link : Nat)
  | reorganized (link : Nat)
  | other

/-- What reaches a subscriber's channel from the node. -/
inductive Notice where
  | wireTx (message : Chunk)
  | wireBlock (message : WireBlock)
  | chase (value : Chase)

structure Frame where
  text : Chunk
  cancel : Bool
  deriving DecidableEq, Repr

def setSubscription (subscribed : Topic → Bool) (topic : Topic) (text : Chunk) (cancel : Bool) :
    Bool × (Topic → Bool) :=
  if text <+: topic.name then
    (subscribed topic == cancel, Function.update subscribed topic !cancel)
  else (false, subscribed)

def sequenceBody (value : Label) (hash : Chunk) (pool : UInt64 := 0) : Chunk :=
  let tx := value = .transactionAccepted ∨ value = .transactionRemoved
  hash.reverse ++ [value.toValue] ++
    if tx then (List.range 8).map fun byte => (pool >>> (8 * byte).toUInt64).toUInt8 else []

namespace ProtocolBitcoindZmq

variable (protocol : ProtocolBitcoindZmq)

/-- The subscription count of a frame; `none` when it passes the limit. -/
def countSubscription (cancel : Bool) : Option UInt32 :=
  if cancel then
    some (if protocol.subscriptions ≠ 0 then protocol.subscriptions - 1
      else protocol.subscriptions)
  else if protocol.subscriptions + 1 > protocol.maximumSubscriptions then none
  else some (protocol.subscriptions + 1)

/-- `handle_subscribe`, with the calls it makes of the node. -/
def handleSubscribe (frame : Frame) : ProtocolBitcoindZmq × List Demand :=
  if protocol.stopped then (protocol, [])
  else
    match protocol.countSubscription frame.cancel with
    | none =>
        ({ protocol with subscriptions := protocol.subscriptions + 1, stopped := true }, [])
    | some subscriptions =>
        let set := fun subscribed topic => setSubscription subscribed topic frame.text frame.cancel
        let hashBlock := set protocol.subscribed .hashBlock
        let hashTx := set hashBlock.2 .hashTx
        let sequence := set hashTx.2 .sequence
        let rawBlock := set sequence.2 .rawBlock
        let rawTx := set rawBlock.2 .rawTx
        ({ protocol with subscriptions, subscribed := rawTx.2 },
          (if rawBlock.1 then [.wireBlock !frame.cancel] else []) ++
            if rawTx.1 then [.wireTx !frame.cancel, .wireBlock !frame.cancel] else [])

/-- `stopping`, with the calls it makes of the node. -/
def stopping : ProtocolBitcoindZmq × List Demand :=
  ({ protocol with
      stopped := true
      subscribed := Function.update (Function.update protocol.subscribed .rawTx false)
        .rawBlock false },
    (if protocol.subscribed .rawTx then [.wireTx false, .wireBlock false] else []) ++
      if protocol.subscribed .rawBlock then [.wireBlock false] else [])

/-- `publish` of a topic, with the topic's own count. -/
def publish (topic : Topic) (body : Body) : ProtocolBitcoindZmq :=
  { protocol with
    sent := protocol.sent ++ [⟨topic, body, protocol.counters topic⟩]
    counters := Function.update protocol.counters topic (protocol.counters topic + 1) }

/-- The guard of every publication. -/
def publishIf (topic : Topic) (body : Body) : ProtocolBitcoindZmq :=
  if protocol.subscribed topic then protocol.publish topic body else protocol

def blocks : Bool := protocol.subscribed .hashBlock || protocol.subscribed .sequence

def transactions : Bool := protocol.subscribed .hashTx

def sequences : Bool := protocol.subscribed .sequence

def handleWireTx (message : Chunk) : ProtocolBitcoindZmq :=
  if protocol.stopped then protocol else protocol.publishIf .rawTx (.tx message)

def handleWireBlock (message : WireBlock) : ProtocolBitcoindZmq :=
  if protocol.stopped then protocol
  else
    let published :=
      if protocol.subscribed .rawTx then
        message.transactions.foldl (fun protocol item => protocol.publish .rawTx (.tx item))
          protocol
      else protocol
    if message.organized then published.publishIf .rawBlock (.block message) else published

/-- `publish` of a transaction. -/
def publishTx (archive : Archive) (link : Nat) (sequenced : Bool) : ProtocolBitcoindZmq :=
  match archive.getTxKey link with
  | none => protocol
  | some hash =>
      let hashed := protocol.publishIf .hashTx (.chunk hash.reverse)
      if sequenced && hashed.subscribed .sequence then
        { hashed.publish .sequence (.chunk (sequenceBody .transactionAccepted hash hashed.pool))
          with pool := hashed.pool + 1 }
      else hashed

/-- The transactions of a block, published by do_organized and do_reorganized. -/
def publishTxs (archive : Archive) (link : Nat) : ProtocolBitcoindZmq :=
  if protocol.transactions then
    (archive.toTransactions link).foldl (fun protocol tx => protocol.publishTx archive tx false)
      protocol
  else protocol

def doOrganized (archive : Archive) (link : Nat) : ProtocolBitcoindZmq :=
  if protocol.stopped then protocol
  else
    match archive.getHeaderKey link with
    | none => protocol
    | some hash =>
        let hashed := (protocol.publishTxs archive link).publishIf .hashBlock
          (.chunk hash.reverse)
        hashed.publishIf .sequence (.chunk (sequenceBody .blockConnected hash))

def doReorganized (archive : Archive) (link : Nat) : ProtocolBitcoindZmq :=
  if protocol.stopped then protocol
  else
    match archive.getHeaderKey link with
    | none => protocol
    | some hash =>
        (protocol.publishTxs archive link).publishIf .sequence
          (.chunk (sequenceBody .blockDisconnected hash))

def doTransaction (archive : Archive) (link : Nat) : ProtocolBitcoindZmq :=
  if protocol.stopped then protocol else protocol.publishTx archive link true

/-- `handle_chase`: whether the handler of the event is posted. -/
def handleChase (current : Bool) : Chase → Bool
  | .organized _ => !protocol.stopped && (protocol.blocks || protocol.transactions) && current
  | .transaction _ => !protocol.stopped && (protocol.transactions || protocol.sequences)
  | .reorganized _ => !protocol.stopped && (protocol.blocks || protocol.transactions) && current
  | .other => false

/-- The handlers that `handle_chase` posts. -/
def doChase (archive : Archive) : Chase → ProtocolBitcoindZmq
  | .organized link => protocol.doOrganized archive link
  | .transaction link => protocol.doTransaction archive link
  | .reorganized link => protocol.doReorganized archive link
  | .other => protocol

/-- A notice of the node, with the handler it posts. -/
def notice (archive : Archive) (current : Bool) : Notice → ProtocolBitcoindZmq
  | .wireTx message => protocol.handleWireTx message
  | .wireBlock message => protocol.handleWireBlock message
  | .chase value =>
      if protocol.handleChase current value then protocol.doChase archive value else protocol

/-- Some notice of the node makes the protocol publish the topic. -/
def Publishes (topic : Topic) : Prop :=
  ∃ archive current value more, (protocol.notice archive current value).sent =
    protocol.sent ++ more ∧ ∃ notification ∈ more, notification.topic = topic

/-! ## A topic is published under its flag -/

/-- What a handler of the node's notices does: it sends topics that are subscribed. -/
structure Sends (before after : ProtocolBitcoindZmq) : Prop where
  subscribed : after.subscribed = before.subscribed
  sent : ∃ more, after.sent = before.sent ++ more ∧
    ∀ notification ∈ more, before.subscribed notification.topic = true

namespace Sends

variable {protocol} {middle after : ProtocolBitcoindZmq}

theorem refl (protocol : ProtocolBitcoindZmq) : Sends protocol protocol where
  subscribed := rfl
  sent := ⟨[], by simp⟩

theorem trans (first : Sends protocol middle) (second : Sends middle after) :
    Sends protocol after where
  subscribed := second.subscribed.trans first.subscribed
  sent := by
    obtain ⟨some, some_sent, some_on⟩ := first.sent
    obtain ⟨more, more_sent, more_on⟩ := second.sent
    refine ⟨some ++ more, ?_, ?_⟩
    · rw [more_sent, some_sent, List.append_assoc]
    · intro notification member
      rcases List.mem_append.mp member with early | late
      · exact some_on notification early
      · rw [← first.subscribed]
        exact more_on notification late

theorem publish {topic : Topic} (on : protocol.subscribed topic = true) (body : Body) :
    Sends protocol (protocol.publish topic body) where
  subscribed := rfl
  sent := by
    refine ⟨[⟨topic, body, protocol.counters topic⟩], rfl, ?_⟩
    intro notification member
    rw [List.mem_singleton.mp member]
    exact on

theorem publishIf (topic : Topic) (body : Body) :
    Sends protocol (protocol.publishIf topic body) := by
  unfold ProtocolBitcoindZmq.publishIf
  split_ifs with on
  · exact publish on body
  · exact refl protocol

/-- A loop whose every turn only sends, only sends. -/
theorem foldl {Item : Type} {turn : ProtocolBitcoindZmq → Item → ProtocolBitcoindZmq}
    (keeps : ∀ middle item, middle.subscribed = protocol.subscribed →
      Sends middle (turn middle item))
    (items : List Item) : Sends protocol (items.foldl turn protocol) := by
  induction items using List.reverseRecOn with
  | nil => exact refl protocol
  | append_singleton items item ih =>
      rw [List.foldl_append]
      exact ih.trans (keeps _ item ih.subscribed)

theorem handleWireTx (message : Chunk) : Sends protocol (protocol.handleWireTx message) := by
  unfold ProtocolBitcoindZmq.handleWireTx
  split_ifs
  · exact refl protocol
  · exact publishIf _ _

theorem handleWireBlock (message : WireBlock) :
    Sends protocol (protocol.handleWireBlock message) := by
  unfold ProtocolBitcoindZmq.handleWireBlock
  dsimp only
  have txs : Sends protocol (if protocol.subscribed .rawTx then message.transactions.foldl
      (fun protocol item => protocol.publish .rawTx (.tx item)) protocol else protocol) := by
    split_ifs with on
    · apply foldl
      intro middle item same
      apply publish
      rw [same, on]
    · exact refl protocol
  split_ifs at txs ⊢
  all_goals first
    | exact refl protocol
    | exact txs
    | exact txs.trans (publishIf _ _)

theorem publishTx_hashed {archive : Archive} {link : Nat} {hash : Chunk}
    (found : archive.getTxKey link = some hash) (sequenced : Bool) :
    Sends (protocol.publishIf .hashTx (.chunk hash.reverse))
      (protocol.publishTx archive link sequenced) := by
  unfold ProtocolBitcoindZmq.publishTx
  rw [found]
  dsimp only
  split_ifs with on
  · exact ⟨rfl, (publish (Bool.and_eq_true_iff.mp on).2 _).sent⟩
  · exact refl _

theorem publishTx (archive : Archive) (link : Nat) (sequenced : Bool) :
    Sends protocol (protocol.publishTx archive link sequenced) := by
  cases found : archive.getTxKey link with
  | none =>
      unfold ProtocolBitcoindZmq.publishTx
      rw [found]
      exact refl protocol
  | some hash => exact (publishIf _ _).trans (publishTx_hashed found sequenced)

theorem publishTxs (archive : Archive) (link : Nat) :
    Sends protocol (protocol.publishTxs archive link) := by
  unfold ProtocolBitcoindZmq.publishTxs
  split_ifs
  · exact foldl (fun middle tx _ => publishTx archive tx false) _
  · exact refl protocol

theorem doChase (archive : Archive) (value : Chase) :
    Sends protocol (protocol.doChase archive value) := by
  cases value with
  | organized link =>
      simp only [ProtocolBitcoindZmq.doChase, doOrganized]
      split
      · exact refl protocol
      · split
        · exact refl protocol
        · exact ((publishTxs archive link).trans (publishIf _ _)).trans (publishIf _ _)
  | transaction link =>
      simp only [ProtocolBitcoindZmq.doChase, doTransaction]
      split
      · exact refl protocol
      · exact publishTx archive link true
  | reorganized link =>
      simp only [ProtocolBitcoindZmq.doChase, doReorganized]
      split
      · exact refl protocol
      · split
        · exact refl protocol
        · exact (publishTxs archive link).trans (publishIf _ _)
  | other => exact refl protocol

theorem notice (archive : Archive) (current : Bool) (value : Notice) :
    Sends protocol (protocol.notice archive current value) := by
  cases value with
  | wireTx message => exact handleWireTx message
  | wireBlock message => exact handleWireBlock message
  | chase value =>
      simp only [ProtocolBitcoindZmq.notice]
      split
      · exact doChase archive value
      · exact refl protocol

end Sends

/-- An archive that finds every block and transaction, all blocks empty. -/
private def found : Archive where
  getHeaderKey _ := some []
  getTxKey _ := some []
  toTransactions _ := []

/-- A handler that publishes the topic on its way. -/
theorem publishes_of_sends {protocol middle : ProtocolBitcoindZmq} {topic : Topic} {body : Body}
    (archive : Archive) (current : Bool) (value : Notice) (on : protocol.subscribed topic = true)
    (before : Sends protocol middle)
    (after : Sends (middle.publishIf topic body) (protocol.notice archive current value)) :
    protocol.Publishes topic := by
  obtain ⟨some, some_sent, _⟩ := before.sent
  obtain ⟨more, more_sent, _⟩ := after.sent
  have still : middle.subscribed topic = true := by rw [before.subscribed, on]
  refine ⟨archive, current, value, some ++ ⟨topic, body, middle.counters topic⟩ :: more, ?_, _,
    List.mem_append_right _ List.mem_cons_self, rfl⟩
  rw [more_sent, publishIf, if_pos still, publish, some_sent]
  simp

theorem publishes_iff {protocol : ProtocolBitcoindZmq} (live : protocol.stopped = false)
    (topic : Topic) : protocol.Publishes topic ↔ protocol.subscribed topic = true := by
  constructor
  · rintro ⟨archive, current, value, more, sent, notification, member, rfl⟩
    obtain ⟨others, others_sent, on⟩ := (Sends.notice archive current value).sent
    rw [others_sent, List.append_cancel_left_eq] at sent
    exact on notification (sent ▸ member)
  · intro on
    cases topic with
    | hashBlock =>
        apply publishes_of_sends found true (.chase (.organized 0)) on (Sends.publishTxs found 0)
        simpa [notice, handleChase, doChase, doOrganized, live, blocks, on, found] using
          Sends.publishIf _ _
    | rawBlock =>
        apply publishes_of_sends found true (.wireBlock ⟨[], true⟩) on (Sends.refl protocol)
        simpa [notice, handleWireBlock, live] using Sends.refl _
    | hashTx =>
        apply publishes_of_sends found true (.chase (.transaction 0)) on (Sends.refl protocol)
        simpa [notice, handleChase, doChase, doTransaction, live, transactions, on] using
          Sends.publishTx_hashed rfl true
    | rawTx =>
        apply publishes_of_sends found true (.wireTx []) on (Sends.refl protocol)
        simpa [notice, handleWireTx, live] using Sends.refl _
    | sequence =>
        apply publishes_of_sends found true (.chase (.reorganized 0)) on (Sends.publishTxs found 0)
        simpa [notice, handleChase, doChase, doReorganized, live, blocks, on, found] using
          Sends.refl _

/-! ## The flags after a frame -/

theorem setSubscription_apply (subscribed : Topic → Bool) (topic : Topic) (text : Chunk)
    (cancel : Bool) (other : Topic) :
    (setSubscription subscribed topic text cancel).2 other =
      if other = topic ∧ text <+: topic.name then !cancel else subscribed other := by
  unfold setSubscription
  by_cases matched : text <+: topic.name
  · by_cases same : other = topic
    · subst same
      simp [matched]
    · simp [matched, same]
  · simp [matched]

theorem setSubscription_changed (subscribed : Topic → Bool) (topic : Topic) (text : Chunk)
    (cancel : Bool) :
    (setSubscription subscribed topic text cancel).1 =
      (decide (text <+: topic.name) && subscribed topic == cancel) := by
  unfold setSubscription
  split_ifs with matched <;> simp [matched]

/-- The flags after a frame: every topic that it matches takes its sense, whatever it
    was before. -/
def sensed (frame : Frame) (topic : Topic) : Bool :=
  if frame.text <+: topic.name then !frame.cancel else protocol.subscribed topic

/-- The frame turns the topic's flag. -/
def turns (frame : Frame) (topic : Topic) : Bool :=
  decide (frame.text <+: topic.name) && protocol.subscribed topic == frame.cancel

/-- What `handle_subscribe` can do. -/
inductive Handled (frame : Frame) : ProtocolBitcoindZmq × List Demand → Prop where
  | ignored (stopped : protocol.stopped = true) : Handled frame (protocol, [])
  | limited (subscriptions : UInt32) :
      Handled frame ({ protocol with subscriptions, stopped := true }, [])
  | applied (live : protocol.stopped = false) (subscriptions : UInt32) :
      Handled frame ({ protocol with subscriptions, subscribed := protocol.sensed frame },
        (if protocol.turns frame .rawBlock then [.wireBlock !frame.cancel] else []) ++
          if protocol.turns frame .rawTx then [.wireTx !frame.cancel, .wireBlock !frame.cancel]
          else [])

theorem handleSubscribe_handled (frame : Frame) :
    protocol.Handled frame (protocol.handleSubscribe frame) := by
  unfold handleSubscribe
  split
  · next stopped => exact .ignored stopped
  · next live =>
      split
      · exact .limited _
      · next subscriptions _ =>
          have flags : (setSubscription (setSubscription (setSubscription (setSubscription
              (setSubscription protocol.subscribed .hashBlock frame.text frame.cancel).2
              .hashTx frame.text frame.cancel).2 .sequence frame.text frame.cancel).2
              .rawBlock frame.text frame.cancel).2 .rawTx frame.text frame.cancel).2 =
              protocol.sensed frame := by
            funext topic
            cases topic <;> simp [setSubscription_apply, sensed]
          have done : protocol.Handled frame _ := .applied (by simpa using live) subscriptions
          simpa [flags, setSubscription_changed, setSubscription_apply, turns] using done

theorem handleSubscribe_subscribed {frame : Frame}
    (live : (protocol.handleSubscribe frame).1.stopped = false) :
    (protocol.handleSubscribe frame).1.subscribed = protocol.sensed frame := by
  have handled := protocol.handleSubscribe_handled frame
  generalize protocol.handleSubscribe frame = result at handled live ⊢
  cases handled with
  | ignored stopped =>
      rw [stopped] at live
      cases live
  | limited => cases live
  | applied => rfl

end ProtocolBitcoindZmq

/-! ## What the frames mean -/

/-- A protocol with the prefixes that its subscriber has subscribed more often than
    it has cancelled them since. -/
structure Subscriber where
  protocol : ProtocolBitcoindZmq
  outstanding : List Chunk := []

namespace Subscriber

def start (maximum : UInt32) : Subscriber where
  protocol := { maximumSubscriptions := maximum }

def step (subscriber : Subscriber) (frame : Frame) : Subscriber where
  protocol := (subscriber.protocol.handleSubscribe frame).1
  outstanding :=
    if frame.cancel then subscriber.outstanding.erase frame.text
    else frame.text :: subscriber.outstanding

def Wants (subscriber : Subscriber) (topic : Topic) : Prop :=
  ∃ text ∈ subscriber.outstanding, text <+: topic.name

/-- The topics published are those that an outstanding prefix matches. -/
def Agrees (subscriber : Subscriber) : Prop :=
  ∀ topic, subscriber.protocol.Publishes topic ↔ subscriber.Wants topic

/-- A cancel frame leaves no outstanding prefix of a topic that it matches. -/
def Settles (subscriber : Subscriber) (frame : Frame) : Prop :=
  frame.cancel = true → ∀ topic : Topic, frame.text <+: topic.name →
    ∀ text ∈ subscriber.outstanding.erase frame.text, ¬text <+: topic.name

variable {subscriber : Subscriber} {frame : Frame}

/-- A frame does not touch what is wanted of a topic that it does not match. -/
theorem wants_step_of_not_matched {topic : Topic} (apart : ¬frame.text <+: topic.name) :
    (subscriber.step frame).Wants topic ↔ subscriber.Wants topic := by
  have other : ∀ text : Chunk, text <+: topic.name → text ≠ frame.text := by
    intro text matched same
    exact apart (same ▸ matched)
  unfold Wants step
  cases frame.cancel with
  | true =>
      apply exists_congr
      intro text
      simp only [if_true]
      constructor
      · rintro ⟨member, matched⟩
        exact ⟨List.mem_of_mem_erase member, matched⟩
      · rintro ⟨member, matched⟩
        exact ⟨(List.mem_erase_of_ne (other text matched)).mpr member, matched⟩
  | false =>
      simp only [Bool.false_eq_true, if_false, List.mem_cons]
      constructor
      · rintro ⟨text, rfl | member, matched⟩
        · exact absurd matched apart
        · exact ⟨text, member, matched⟩
      · rintro ⟨text, member, matched⟩
        exact ⟨text, .inr member, matched⟩

theorem wants_step_of_subscribe {topic : Topic} (subscribe : frame.cancel = false)
    (matched : frame.text <+: topic.name) : (subscriber.step frame).Wants topic := by
  refine ⟨frame.text, ?_, matched⟩
  simp [step, subscribe]

theorem publishes_step (live : subscriber.protocol.stopped = false)
    (below : (subscriber.step frame).protocol.stopped = false) (topic : Topic) :
    (subscriber.step frame).protocol.Publishes topic ↔
      if frame.text <+: topic.name then frame.cancel = false
      else subscriber.protocol.Publishes topic := by
  rw [ProtocolBitcoindZmq.publishes_iff below, ProtocolBitcoindZmq.publishes_iff live]
  have flags := subscriber.protocol.handleSubscribe_subscribed below
  simp only [step, flags, ProtocolBitcoindZmq.sensed]
  split_ifs <;> simp

/-- From agreement, a frame leads to agreement exactly when it settles its topics. -/
theorem agrees_step_iff (live : subscriber.protocol.stopped = false)
    (below : (subscriber.step frame).protocol.stopped = false) (agrees : subscriber.Agrees) :
    (subscriber.step frame).Agrees ↔ subscriber.Settles frame := by
  constructor
  · intro after cancel topic matched text member text_matched
    have published := (publishes_step live below topic).mp
      ((after topic).mpr ⟨text, by simpa [step, cancel] using member, text_matched⟩)
    rw [if_pos matched, cancel] at published
    cases published
  · intro settles topic
    rw [publishes_step live below]
    by_cases matched : frame.text <+: topic.name
    · rw [if_pos matched]
      cases cancel : frame.cancel with
      | true =>
          have unwanted : ¬(subscriber.step frame).Wants topic := by
            rintro ⟨text, member, text_matched⟩
            simp only [step, cancel, if_true] at member
            exact settles cancel topic matched text member text_matched
          simp [unwanted]
      | false => simp [wants_step_of_subscribe cancel matched]
    · rw [if_neg matched, wants_step_of_not_matched matched]
      exact agrees topic

/-- Below the subscription limit, the topics published are those that the subscriber
    wants, throughout, exactly when every cancel frame settles its topics. -/
theorem agrees_iff_settles (maximum : UInt32) (frames : List Frame)
    (below : ∀ visit ∈ Run.steps step (start maximum) frames,
      (step visit.1 visit.2).protocol.stopped = false) :
    (∀ visit ∈ Run.steps step (start maximum) frames, (step visit.1 visit.2).Agrees) ↔
      ∀ visit ∈ Run.steps step (start maximum) frames, visit.1.Settles visit.2 := by
  apply Run.steps_congr (fun subscriber => subscriber.protocol.stopped = false ∧ subscriber.Agrees)
    (fun subscriber frame => (step subscriber frame).Agrees)
    (fun subscriber frame => (step subscriber frame).protocol.stopped = false) Settles
  · intro subscriber frame _ below agrees
    exact ⟨below, agrees⟩
  · intro subscriber frame inside below
    exact agrees_step_iff inside.1 below inside.2
  · refine ⟨rfl, ?_⟩
    intro topic
    rw [ProtocolBitcoindZmq.publishes_iff rfl]
    simp [Wants, start]
  · exact below

/-! ## The last frame of a topic decides -/

/-- The last of the frames whose prefix matches the topic. -/
def latest (frames : List Frame) (topic : Topic) : Option Frame :=
  frames.reverse.find? fun frame => decide (frame.text <+: topic.name)

theorem latest_cons (frame : Frame) (frames : List Frame) (topic : Topic) :
    latest (frame :: frames) topic =
      (latest frames topic).or (if frame.text <+: topic.name then some frame else none) := by
  simp [latest, List.find?_append, List.find?_singleton]

/-- From any state below the limit, the last frame that matches a topic decides whether it
    is published, and where no frame does, what was published before still is. -/
theorem publishes_final_iff {frames : List Frame} (topic : Topic)
    (live : subscriber.protocol.stopped = false)
    (below : ∀ visit ∈ Run.steps step subscriber frames,
      (step visit.1 visit.2).protocol.stopped = false) :
    (Run.final step subscriber frames).protocol.Publishes topic ↔
      match latest frames topic with
      | some frame => frame.cancel = false
      | none => subscriber.protocol.Publishes topic := by
  induction frames generalizing subscriber with
  | nil => exact Iff.rfl
  | cons frame frames ih =>
      have first := below (subscriber, frame) List.mem_cons_self
      have later := ih first fun visit member => below visit (List.mem_cons_of_mem _ member)
      rw [Run.final, List.foldl_cons, ← Run.final, later, latest_cons]
      cases latest frames topic with
      | some last => exact Iff.rfl
      | none =>
          rw [publishes_step live first, Option.none_or]
          split_ifs <;> exact Iff.rfl

/-- Below the subscription limit, a topic is published after a sequence of frames exactly
    when the last of them that matches it subscribes; and the topics published are those of
    the outstanding prefixes throughout exactly when every cancel frame settles its topics. -/
theorem publishes_iff_latest (maximum : UInt32) (frames : List Frame)
    (below : ∀ visit ∈ Run.steps step (start maximum) frames,
      (step visit.1 visit.2).protocol.stopped = false) :
    (∀ topic, (Run.final step (start maximum) frames).protocol.Publishes topic ↔
      ∃ frame, latest frames topic = some frame ∧ frame.cancel = false) ∧
    ((∀ visit ∈ Run.steps step (start maximum) frames, (step visit.1 visit.2).Agrees) ↔
      ∀ visit ∈ Run.steps step (start maximum) frames, visit.1.Settles visit.2) := by
  refine ⟨?_, agrees_iff_settles maximum frames below⟩
  intro topic
  rw [publishes_final_iff topic rfl below]
  cases latest frames topic with
  | some frame => simp
  | none =>
      rw [ProtocolBitcoindZmq.publishes_iff rfl]
      simp [start]

/-- "raw" and "rawtx" are subscribed, and "rawtx" is cancelled. -/
private def rawFrames : List Frame :=
  [⟨[0x72, 0x61, 0x77], false⟩, ⟨Topic.rawTx.name, false⟩, ⟨Topic.rawTx.name, true⟩]

theorem publishes_iff_latest_raw :
    (Run.final step (start 100) rawFrames).protocol.Publishes .rawBlock ∧
    ¬(Run.final step (start 100) rawFrames).protocol.Publishes .rawTx ∧
    ¬∀ visit ∈ Run.steps step (start 100) rawFrames, (step visit.1 visit.2).Agrees := by
  have both := publishes_iff_latest 100 rawFrames (by decide +kernel)
  refine ⟨(both.1 .rawBlock).mpr ⟨⟨[0x72, 0x61, 0x77], false⟩, by decide +kernel, rfl⟩, ?_, ?_⟩
  · intro published
    obtain ⟨frame, last, subscribes⟩ := (both.1 .rawTx).mp published
    have cancels : latest rawFrames .rawTx = some ⟨Topic.rawTx.name, true⟩ := by decide +kernel
    rw [cancels, Option.some.injEq] at last
    rw [← last] at subscribes
    cases subscribes
  · intro agrees
    have settled := both.2.mp agrees
      (step (step (start 100) rawFrames[0]) rawFrames[1], rawFrames[2]) (by
        simp [Run.steps, rawFrames])
    exact settled rfl .rawTx (List.prefix_refl _) [0x72, 0x61, 0x77] (by decide +kernel)
      (by decide +kernel)

/-- The bytes of "hash". -/
private def hash : Chunk := [0x68, 0x61, 0x73, 0x68]

/-- Cancelling the empty prefix also takes the topics of a prefix that is still
    subscribed. -/
theorem overlapped_unpublished :
    ¬∀ maximum frames, (∀ visit ∈ Run.steps step (start maximum) frames,
      (step visit.1 visit.2).protocol.stopped = false) →
      ∀ visit ∈ Run.steps step (start maximum) frames, (step visit.1 visit.2).Agrees := by
  intro all
  have agrees := all 100 [⟨hash, false⟩, ⟨[], false⟩, ⟨[], true⟩] (by decide +kernel)
    (step (step (start 100) ⟨hash, false⟩) ⟨[], false⟩, ⟨[], true⟩) (by simp [Run.steps]) .hashBlock
  rw [ProtocolBitcoindZmq.publishes_iff (by decide +kernel)] at agrees
  have wanted := agrees.mpr ⟨hash, by decide +kernel, by decide +kernel⟩
  revert wanted
  decide +kernel

end Subscriber

end LibbitcoinServer.Zmq
