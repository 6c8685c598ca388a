import LibbitcoinServer.Lib.Run

/-! # Top subscriptions of the native protocol

A client that is subscribed to the top is sent a height for every block that the
confirmed chain gains or loses.  Both events carry the link of their block, and
`do_top` sends the height of the linked block.  That of a block that was connected is
the new top; that of a block that was disconnected is the top before, one above the
block that the chain was cut back to.
-/

namespace LibbitcoinServer.Native

inductive MediaType where
  | unknown
  | data
  | text
  | json
  | other
  deriving DecidableEq

/-- A height in one of the encodings that are sent. -/
structure Notice where
  media : MediaType
  height : Nat
  deriving DecidableEq

inductive Response where
  | top (notice : Notice)
  | notFound
  | empty
  deriving DecidableEq

/-- The events of the chain, each with the link of its block. -/
inductive Chase (Link : Type) where
  | block (link : Link)
  | reorganized (link : Link)

def Chase.link {Link : Type} : Chase Link → Link
  | .block link | .reorganized link => link

structure ProtocolNative where
  websocket : Bool
  stopped : Bool := false
  topSubscribe : MediaType := .unknown
  notified : List Notice := []
  responses : List Response := []
  deriving DecidableEq

/-- The media that a height is encoded in. -/
def MediaType.encodes : MediaType → Bool
  | .data | .text | .json => true
  | .unknown | .other => false

section Protocol

-- `get_height`, which the store keeps with the header of the link.
variable {Link : Type} (getHeight : Link → Nat)

namespace ProtocolNative

variable (protocol : ProtocolNative)

def doTop (link : Link) (media : MediaType) : ProtocolNative :=
  if media.encodes then
    { protocol with notified := protocol.notified ++ [⟨media, getHeight link⟩] }
  else protocol

def handleChase : Chase Link → ProtocolNative
  | .block link | .reorganized link =>
      if protocol.stopped then protocol
      else if !protocol.websocket then protocol
      else if protocol.topSubscribe ≠ .unknown then
        protocol.doTop getHeight link protocol.topSubscribe
      else protocol

def handleGetTop (top : Nat) (media : MediaType) : ProtocolNative :=
  { protocol with
    responses := protocol.responses ++
      [if media.encodes then .top ⟨media, top⟩ else .notFound] }

def handleGetTopSubscribe (top : Nat) (media : MediaType) (stop : Bool) : ProtocolNative :=
  if protocol.stopped then protocol
  else
    let stored := { protocol with topSubscribe := if stop then .unknown else media }
    if stop then { stored with responses := stored.responses ++ [.empty] }
    else stored.handleGetTop top media

/-- A height would be sent for an event. -/
def Listening : Prop :=
  protocol.stopped = false ∧ protocol.websocket = true ∧ protocol.topSubscribe.encodes = true

instance : Decidable protocol.Listening :=
  inferInstanceAs (Decidable (_ ∧ _ ∧ _))

/-- The height of the linked block is sent to a client that listens. -/
theorem notified_handleChase (chase : Chase Link) :
    (protocol.handleChase getHeight chase).notified = protocol.notified ++
      if protocol.Listening then [⟨protocol.topSubscribe, getHeight chase.link⟩] else [] := by
  have unknown : protocol.topSubscribe.encodes = true → protocol.topSubscribe ≠ .unknown := by
    intro encodes same
    rw [same] at encodes
    cases encodes
  cases chase <;>
  · unfold handleChase doTop Listening
    split_ifs <;> simp_all [Chase.link]

end ProtocolNative

/-- The links of the confirmed chain above genesis, each at its height. -/
structure Confirmed where
  above : List Link
  placed : ∀ index link, above[index]? = some link → getHeight link = index + 1

namespace Confirmed

variable {getHeight} (chain : Confirmed getHeight)

def top : Nat := chain.above.length

def connect (link : Link) (next : getHeight link = chain.top + 1) : Confirmed getHeight where
  above := chain.above ++ [link]
  placed := by
    intro index other here
    rw [List.getElem?_append] at here
    split_ifs at here with early
    · exact chain.placed index other here
    · obtain ⟨bound, rfl⟩ := List.getElem?_eq_some_iff.mp here
      rw [List.length_singleton] at bound
      have last : index = chain.above.length := by omega
      simpa [last, top] using next

def disconnect : Confirmed getHeight where
  above := chain.above.dropLast
  placed := by
    intro index link here
    rw [List.getElem?_dropLast] at here
    split_ifs at here
    exact chain.placed index link here

/-- The top block stands at the top. -/
theorem getHeight_last {link : Link} (last : chain.above.getLast? = some link) :
    getHeight link = chain.top := by
  rw [List.getLast?_eq_getElem?] at last
  have placed := chain.placed _ link last
  have bound := (List.getElem?_eq_some_iff.mp last).1
  rw [placed, top]
  omega

end Confirmed

/-- The confirmed chain and a client's protocol. -/
structure Node where
  chain : Confirmed getHeight
  protocol : ProtocolNative

inductive Turn (Link : Type) where
  | connect (link : Link)
  | disconnect
  | subscribe (media : MediaType) (stop : Bool)
  | stop

namespace Node

variable {getHeight} (node : Node getHeight)

/-- A block is connected above the top, and the top block is disconnected; each issues
    its event. -/
def step : Turn Link → Node getHeight
  | .connect link =>
      if next : getHeight link = node.chain.top + 1 then
        { chain := node.chain.connect link next
          protocol := node.protocol.handleChase getHeight (.block link) }
      else node
  | .disconnect =>
      match node.chain.above.getLast? with
      | none => node
      | some link =>
          { chain := node.chain.disconnect
            protocol := node.protocol.handleChase getHeight (.reorganized link) }
  | .subscribe media stop =>
      { node with protocol := node.protocol.handleGetTopSubscribe node.chain.top media stop }
  | .stop => { node with protocol := { node.protocol with stopped := true } }

/-- What the turn sends. -/
def sent (turn : Turn Link) : List Notice :=
  (node.step turn).protocol.notified.drop node.protocol.notified.length

/-- Every height that a turn sends is that of the chain after it. -/
def Tracks (turn : Turn Link) : Prop :=
  ∀ notice ∈ node.sent turn, notice.height = (node.step turn).chain.top

/-- The top block is disconnected under a client that is subscribed. -/
def Cuts (turn : Turn Link) : Prop :=
  match turn with
  | .disconnect => node.protocol.Listening ∧ node.chain.above ≠ []
  | _ => False

variable {node}

/-- A listening client is sent the height of the block of the event. -/
theorem sent_connect {link : Link} (next : getHeight link = node.chain.top + 1) :
    node.sent (.connect link) =
      if node.protocol.Listening then [⟨node.protocol.topSubscribe, node.chain.top + 1⟩]
      else [] := by
  rw [sent, step, dif_pos next, ProtocolNative.notified_handleChase, List.drop_left]
  simp only [Chase.link, next]

theorem sent_disconnect {link : Link} (last : node.chain.above.getLast? = some link) :
    node.sent .disconnect =
      if node.protocol.Listening then [⟨node.protocol.topSubscribe, node.chain.top⟩] else [] := by
  rw [sent, step, last]
  dsimp only
  rw [ProtocolNative.notified_handleChase, List.drop_left]
  simp only [Chase.link, node.chain.getHeight_last last]

theorem sent_subscribe (media : MediaType) (stop : Bool) :
    node.sent (.subscribe media stop) = [] := by
  unfold sent step ProtocolNative.handleGetTopSubscribe
  dsimp only
  split_ifs <;> simp [ProtocolNative.handleGetTop]

/-- A turn is tracked unless it cuts the chain under a client that listens. -/
theorem tracks_iff (turn : Turn Link) : node.Tracks turn ↔ ¬node.Cuts turn := by
  unfold Tracks
  cases turn with
  | connect link =>
      by_cases next : getHeight link = node.chain.top + 1
      · rw [sent_connect next]
        have top : (node.step (.connect link)).chain.top = node.chain.top + 1 := by
          rw [step, dif_pos next]
          simp [Confirmed.connect, Confirmed.top]
        simp only [Cuts, not_false_eq_true, iff_true]
        intro notice member
        split_ifs at member
        · rw [List.mem_singleton.mp member, top]
        · cases member
      · have same : node.step (.connect link) = node := by rw [step, dif_neg next]
        simp [sent, same, Cuts]
  | disconnect =>
      cases last : node.chain.above.getLast? with
      | none =>
          have same : node.step .disconnect = node := by rw [step, last]
          simp [sent, same, Cuts, List.getLast?_eq_none_iff.mp last]
      | some link =>
          have some_above : node.chain.above ≠ [] := by
            intro none
            rw [none] at last
            cases last
          have top : (node.step .disconnect).chain.top = node.chain.top - 1 := by
            rw [step, last]
            simp [Confirmed.disconnect, Confirmed.top]
          have positive : 0 < node.chain.top := List.length_pos_iff.mpr some_above
          rw [sent_disconnect last, Cuts, top]
          by_cases listening : node.protocol.Listening
          · simp only [listening, if_true, List.mem_singleton, forall_eq]
            constructor
            · intro tracked
              omega
            · intro uncut
              exact absurd ⟨trivial, some_above⟩ uncut
          · simp [listening]
  | subscribe media stop => simp [sent_subscribe, Cuts]
  | stop => simp [sent, step, Cuts]

/-- In a run of connects, disconnects, subscriptions and unsubscriptions, every height
    sent is that of the chain after its event exactly when no block is disconnected
    under a client that listens. -/
theorem tracks_iff_uncut (start : Node getHeight) (turns : List (Turn Link)) :
    (∀ visit ∈ Run.steps step start turns, visit.1.Tracks visit.2) ↔
      ∀ visit ∈ Run.steps step start turns, ¬visit.1.Cuts visit.2 := by
  constructor
  · intro tracked visit member
    exact (tracks_iff visit.2).mp (tracked visit member)
  · intro uncut visit member
    exact (tracks_iff visit.2).mpr (uncut visit member)

end Node

end Protocol

/-- Genesis alone, under a client that has subscribed to the top as text. -/
private def subscribed : Node (id : Nat → Nat) where
  chain := ⟨[], by simp⟩
  protocol := { websocket := true, topSubscribe := .text }

/-- After blocks 1 and 2 are disconnected, back to genesis, the last height sent is 1. -/
theorem Node.cut_sent_above :
    ¬∀ (start : Node (id : Nat → Nat)) (turns : List (Turn Nat)),
      ∀ visit ∈ Run.steps Node.step start turns, visit.1.Tracks visit.2 := by
  intro all
  have tracked := all subscribed [.connect 1, .connect 2, .disconnect, .disconnect]
    (Run.final Node.step subscribed [.connect 1, .connect 2, .disconnect], .disconnect)
    (by simp [Run.steps, Run.final])
  have sent : Node.sent (Run.final Node.step subscribed [.connect 1, .connect 2, .disconnect])
      .disconnect = [⟨.text, 1⟩] := by decide
  have top : (Node.step (Run.final Node.step subscribed [.connect 1, .connect 2, .disconnect])
      .disconnect).chain.top = 0 := by decide
  have height := tracked ⟨.text, 1⟩ (by rw [sent]; simp)
  rw [top] at height
  cases height

end LibbitcoinServer.Native
