import LibbitcoinServer.Zmq.Topics

/-! # Demand of the wire broadcasts

Zmq channels share the node's two counts of demand, one for wire transactions and
one for wire blocks.  A channel raises and lowers them where a raw flag of its own
turns, and gives back what it still holds when it stops.
-/

namespace LibbitcoinServer.Zmq

/-- The net counts of the demand calls. -/
structure Counts where
  wireTx : Int := 0
  wireBlock : Int := 0
  deriving DecidableEq, Repr

namespace Counts

def demand (counts : Counts) : Demand → Counts
  | .wireTx demand => { counts with wireTx := counts.wireTx + if demand then 1 else -1 }
  | .wireBlock demand => { counts with wireBlock := counts.wireBlock + if demand then 1 else -1 }

def demands (counts : Counts) (calls : List Demand) : Counts := calls.foldl demand counts

/-- Calls change every counts by the same amounts. -/
theorem demands_wireTx (counts : Counts) (calls : List Demand) :
    (counts.demands calls).wireTx = counts.wireTx + (demands {} calls).wireTx := by
  induction calls using List.reverseRecOn with
  | nil => simp [demands]
  | append_singleton calls call ih =>
      simp only [demands, List.foldl_append, List.foldl_cons, List.foldl_nil] at ih ⊢
      cases call with
      | wireTx value =>
          simp only [demand]
          omega
      | wireBlock value => exact ih

theorem demands_wireBlock (counts : Counts) (calls : List Demand) :
    (counts.demands calls).wireBlock = counts.wireBlock + (demands {} calls).wireBlock := by
  induction calls using List.reverseRecOn with
  | nil => simp [demands]
  | append_singleton calls call ih =>
      simp only [demands, List.foldl_append, List.foldl_cons, List.foldl_nil] at ih ⊢
      cases call with
      | wireTx value => exact ih
      | wireBlock value =>
          simp only [demand]
          omega

end Counts

/-- A channel's protocol, with the calls it has made itself and whether it has run
    `stopping`. -/
structure Channel where
  protocol : ProtocolBitcoindZmq
  contribution : Counts := {}
  closed : Bool := false

namespace Channel

def subscribe (channel : Channel) (frame : Frame) : Channel × List Demand :=
  let handled := channel.protocol.handleSubscribe frame
  ({ channel with
      protocol := handled.1
      contribution := channel.contribution.demands handled.2 }, handled.2)

def stop (channel : Channel) : Channel × List Demand :=
  let stopped := channel.protocol.stopping
  ({ protocol := stopped.1
     contribution := channel.contribution.demands stopped.2
     closed := true }, stopped.2)

/-- A channel's calls come to its raw flags, which are clear once it has closed. -/
structure Balanced (channel : Channel) : Prop where
  wireTx : channel.contribution.wireTx = if channel.protocol.subscribed .rawTx then 1 else 0
  wireBlock : channel.contribution.wireBlock =
    (if channel.protocol.subscribed .rawTx then 1 else 0) +
      if channel.protocol.subscribed .rawBlock then 1 else 0
  stopped : channel.closed = true → channel.protocol.stopped = true
  released : channel.closed = true →
    channel.protocol.subscribed .rawTx = false ∧ channel.protocol.subscribed .rawBlock = false

variable {channel : Channel}

theorem Balanced.start (maximum : UInt32) :
    Balanced { protocol := { maximumSubscriptions := maximum } } where
  wireTx := rfl
  wireBlock := rfl
  stopped := by simp
  released := by simp

/-- A frame changes a flag where it turns it, in its own sense. -/
theorem sensed_eq_turns (protocol : ProtocolBitcoindZmq) (frame : Frame) (topic : Topic) :
    (if protocol.sensed frame topic then 1 else 0 : Int) =
      (if protocol.subscribed topic then 1 else 0) +
        if protocol.turns frame topic then (if !frame.cancel then 1 else -1) else 0 := by
  unfold ProtocolBitcoindZmq.sensed ProtocolBitcoindZmq.turns
  by_cases matched : frame.text <+: topic.name
  · cases frame.cancel <;> cases protocol.subscribed topic <;> simp [matched]
  · simp [matched]

theorem Balanced.subscribe (balanced : channel.Balanced) (frame : Frame) :
    (channel.subscribe frame).1.Balanced := by
  have handled := channel.protocol.handleSubscribe_handled frame
  unfold Channel.subscribe
  generalize channel.protocol.handleSubscribe frame = result at handled ⊢
  cases handled with
  | ignored => exact ⟨balanced.wireTx, balanced.wireBlock, balanced.stopped, balanced.released⟩
  | limited =>
      exact ⟨balanced.wireTx, balanced.wireBlock, fun _ => rfl, balanced.released⟩
  | applied live subscriptions =>
      have wireTx := balanced.wireTx
      have wireBlock := balanced.wireBlock
      have opened : channel.closed = false := by
        by_contra closed
        have stopped := balanced.stopped (by simpa using closed)
        rw [live] at stopped
        cases stopped
      have txTurns := sensed_eq_turns channel.protocol frame .rawTx
      have blockTurns := sensed_eq_turns channel.protocol frame .rawBlock
      refine ⟨?_, ?_, ?_, ?_⟩
      · rw [Counts.demands_wireTx, wireTx, txTurns]
        cases channel.protocol.turns frame .rawTx <;>
          cases channel.protocol.turns frame .rawBlock <;> simp [Counts.demands, Counts.demand]
      · rw [Counts.demands_wireBlock, wireBlock, txTurns, blockTurns]
        cases channel.protocol.turns frame .rawTx <;>
          cases channel.protocol.turns frame .rawBlock <;>
          simp [Counts.demands, Counts.demand] <;> omega
      · simp [opened]
      · simp [opened]

theorem Balanced.stop (balanced : channel.Balanced) : channel.stop.1.Balanced := by
  have wireTx := balanced.wireTx
  have wireBlock := balanced.wireBlock
  unfold Channel.stop ProtocolBitcoindZmq.stopping
  refine ⟨?_, ?_, fun _ => rfl, ?_⟩
  · rw [Counts.demands_wireTx, wireTx]
    cases channel.protocol.subscribed .rawTx <;> cases channel.protocol.subscribed .rawBlock <;>
      rfl
  · rw [Counts.demands_wireBlock, wireBlock]
    cases channel.protocol.subscribed .rawTx <;> cases channel.protocol.subscribed .rawBlock <;>
      rfl
  · simp

end Channel

inductive Event where
  | accept (maximum : UInt32)
  | frame (index : Nat) (frame : Frame)
  | stopping (index : Nat)

/-- The zmq channels of a node, with the counts of the calls made of it. -/
structure Server where
  channels : List Channel := []
  counts : Counts := {}

namespace Server

/-- One channel's handler, with the calls that it makes. -/
def handle (server : Server) (index : Nat) (handler : Channel → Channel × List Demand) : Server :=
  match server.channels[index]? with
  | none => server
  | some channel =>
      { channels := server.channels.set index (handler channel).1
        counts := server.counts.demands (handler channel).2 }

def step (server : Server) : Event → Server
  | .accept maximum =>
      { server with channels := server.channels ++
          [{ protocol := { maximumSubscriptions := maximum } }] }
  | .frame index frame => server.handle index (·.subscribe frame)
  | .stopping index => server.handle index Channel.stop

/-- Every channel is balanced, and the node's counts are what the channels contribute. -/
structure Balanced (server : Server) : Prop where
  each : ∀ channel ∈ server.channels, channel.Balanced
  wireTx : server.counts.wireTx = (server.channels.map (·.contribution.wireTx)).sum
  wireBlock : server.counts.wireBlock = (server.channels.map (·.contribution.wireBlock)).sum

variable {server : Server}

theorem sum_map_set (channels : List Channel) (value : Channel → Int) {index : Nat}
    {channel : Channel} (found : channels[index]? = some channel) (other : Channel) :
    ((channels.set index other).map value).sum =
      (channels.map value).sum + (value other - value channel) := by
  obtain ⟨inside, here⟩ := List.getElem?_eq_some_iff.mp found
  rw [List.map_set, List.sum_set', dif_pos (by simpa using inside), List.getElem_map, here]
  ring

/-- A handler keeps the balance when it keeps its own channel's and records its calls. -/
theorem Balanced.handle (balanced : server.Balanced) (index : Nat)
    {handler : Channel → Channel × List Demand}
    (keeps : ∀ channel : Channel, channel.Balanced → (handler channel).1.Balanced)
    (records : ∀ channel, (handler channel).1.contribution =
      channel.contribution.demands (handler channel).2) :
    (server.handle index handler).Balanced := by
  unfold Server.handle
  split
  · exact balanced
  · next channel found =>
      have member := List.mem_of_getElem? found
      refine ⟨?_, ?_, ?_⟩
      · intro other kept
        rcases List.mem_or_eq_of_mem_set kept with before | rfl
        · exact balanced.each other before
        · exact keeps channel (balanced.each channel member)
      · rw [sum_map_set _ _ found, records, Counts.demands_wireTx,
          Counts.demands_wireTx channel.contribution, balanced.wireTx]
        ring
      · rw [sum_map_set _ _ found, records, Counts.demands_wireBlock,
          Counts.demands_wireBlock channel.contribution, balanced.wireBlock]
        ring

theorem Balanced.step (balanced : server.Balanced) (event : Event) :
    (server.step event).Balanced := by
  cases event with
  | accept maximum =>
      refine ⟨?_, ?_, ?_⟩
      · intro channel member
        rcases List.mem_append.mp member with before | new
        · exact balanced.each channel before
        · rw [List.mem_singleton.mp new]
          exact .start maximum
      · simpa [Server.step] using balanced.wireTx
      · simpa [Server.step] using balanced.wireBlock
  | frame index frame =>
      exact balanced.handle index (fun _ kept => kept.subscribe frame) fun _ => rfl
  | stopping index => exact balanced.handle index (fun _ kept => kept.stop) fun _ => rfl

theorem sum_eq_countP {channels : List Channel} {value : Channel → Int} {test : Channel → Bool}
    (each : ∀ channel ∈ channels, value channel = if test channel then 1 else 0) :
    (channels.map value).sum = channels.countP test := by
  induction channels with
  | nil => rfl
  | cons channel channels ih =>
      have first := each channel List.mem_cons_self
      have rest := ih fun other member => each other (List.mem_cons_of_mem _ member)
      rw [List.map_cons, List.sum_cons, rest, first, List.countP_cons]
      push_cast
      ring

/-- A live channel, one that has not run `stopping`, with the topic subscribed. -/
def subscribed (topic : Topic) (channel : Channel) : Bool :=
  !channel.closed && channel.protocol.subscribed topic

/-- The clear flags of a closed channel count as none. -/
theorem subscribed_of_released {topic : Topic} {channel : Channel}
    (released : channel.closed = true → channel.protocol.subscribed topic = false) :
    subscribed topic channel = channel.protocol.subscribed topic := by
  unfold subscribed
  cases closed : channel.closed with
  | false => rfl
  | true => simp [released closed]

/-- After any frames and stops of any channels, the node's counts are the live channels
    with the raw topics subscribed, and a closed channel contributes nothing. -/
theorem demand_balanced (events : List Event) :
    let server := Run.final step {} events
    server.counts.wireTx = server.channels.countP (subscribed .rawTx) ∧
      server.counts.wireBlock = server.channels.countP (subscribed .rawTx) +
        server.channels.countP (subscribed .rawBlock) ∧
      0 ≤ server.counts.wireTx ∧ 0 ≤ server.counts.wireBlock ∧
      ∀ channel ∈ server.channels, channel.closed = true → channel.contribution = {} := by
  intro server
  have balanced : server.Balanced := by
    apply Run.always_final
    · intro server event balanced
      exact balanced.step event
    · exact ⟨by simp, rfl, rfl⟩
  have txs : ∀ channel ∈ server.channels, channel.contribution.wireTx =
      if subscribed .rawTx channel then 1 else 0 := by
    intro channel member
    have each := balanced.each channel member
    rw [each.wireTx, subscribed_of_released fun closed => (each.released closed).1]
  have blocks : ∀ channel ∈ server.channels, channel.contribution.wireBlock -
      channel.contribution.wireTx = if subscribed .rawBlock channel then 1 else 0 := by
    intro channel member
    have each := balanced.each channel member
    rw [each.wireTx, each.wireBlock,
      subscribed_of_released fun closed => (each.released closed).2]
    ring
  have wireTx : server.counts.wireTx = server.channels.countP (subscribed .rawTx) := by
    rw [balanced.wireTx, sum_eq_countP txs]
  have wireBlock : server.counts.wireBlock = server.channels.countP (subscribed .rawTx) +
      server.channels.countP (subscribed .rawBlock) := by
    have parts : server.channels.map (·.contribution.wireBlock) =
        server.channels.map fun channel => channel.contribution.wireTx +
          (channel.contribution.wireBlock - channel.contribution.wireTx) := by
      simp
    rw [balanced.wireBlock, parts, List.sum_map_add, sum_eq_countP txs, sum_eq_countP blocks]
  refine ⟨wireTx, wireBlock, by omega, by omega, ?_⟩
  intro channel member closed
  have each := balanced.each channel member
  have released := each.released closed
  have own := each.wireTx
  have other := each.wireBlock
  rw [released.1] at own other
  rw [released.2] at other
  cases contribution : channel.contribution
  simp_all

end Server

end LibbitcoinServer.Zmq
