import LibbitcoinServer.Electrum.Version
import LibbitcoinServer.Lib.Run

/-! # The electrum version handshake

The handshake passes on a server.version that negotiates, and on any other opener,
which leaves the channel restricted to versions below 1.6.  Later requests reach
the same handlers.  From 1.4 one negotiation stands, and below it a repeat must agree.
A response is sent before the handshake completes, so the channel is paused until then.
-/

namespace LibbitcoinServer.Electrum.Handshake

structure Options where
  protocolMinimum : Number
  protocolMaximum : Number
  serverName : String

structure ChannelElectrum where
  version : Version := .v0_0
  client : String := ""
  restricted : Bool := false
  negotiated : Bool := false
  paused : Bool := false
  stopped : Bool := false

inductive Code where
  | success
  | badRequest
  deriving DecidableEq, Repr

/-- What a server.version is answered with. -/
inductive Answer where
  | code (reason : Code)
  | result (value : Value)
  | stop (reason : Code)

structure ProtocolElectrumVersion where
  options : Options
  channel : ChannelElectrum := {}
  handler : Bool := true
  /-- The codes the handshake completion handler was invoked with. -/
  invoked : List Code := []
  /-- The completions bound to sends under way: the code of the handshake. -/
  sends : List Code := []
  answers : List Answer := []

inductive Event where
  | serverVersion (clientName : String) (protocolVersion : Value)
  | unclaimed
  | sent (index : Nat) (success : Bool)
  | resume
  | stop

/-- The greatest version a channel may negotiate: a non-version opener restricts
    negotiation to below 1.6. -/
def ceiling (options : Options) (channel : ChannelElectrum) : Number :=
  if channel.restricted then min options.protocolMaximum (versionToNumber restrictedMaximum)
  else options.protocolMaximum

/-- The version that `set_version` computes. -/
def computedVersion (system : System) (options : Options) (channel : ChannelElectrum)
    (version : Value) : Version :=
  system.negotiate version options.protocolMinimum (ceiling options channel)

/-- `protocol_electrum_version::set_version` upon its channel.  Below 1.4 a repeat must
    agree with the negotiated version. -/
def setVersion (system : System) (options : Options) (channel : ChannelElectrum)
    (version : Value) : Option ChannelElectrum :=
  let floor := computedVersion system options channel version
  if floor = .v0_0 ∨ channel.negotiated = true ∧ floor ≠ channel.version then none
  else some { channel with version := floor, negotiated := true }

def setClient (system : System) (channel : ChannelElectrum) (name : String) : ChannelElectrum :=
  { channel with
    client := system.escapeClient (String.ofList (name.toList.take maximumClientName)) }

namespace ProtocolElectrumVersion

variable (system : System) (protocol : ProtocolElectrumVersion)

/-- A protocol as `shake` leaves it. -/
def shake (options : Options) : ProtocolElectrumVersion where
  options := options

def finished (success : Bool) (shake : Code) : ProtocolElectrumVersion :=
  if !success || protocol.channel.stopped then protocol
  else if protocol.handler then
    { protocol with invoked := protocol.invoked ++ [shake], handler := false }
  else protocol

def pause : ProtocolElectrumVersion :=
  { protocol with channel := { protocol.channel with paused := true } }

def handleUnclaimed : ProtocolElectrumVersion :=
  if !protocol.handler then protocol
  else
    let paused := protocol.pause
    let channel :=
      { paused.channel with
        restricted := true
        version := versionFloor protocol.options.protocolMinimum }
    { paused with channel }.finished true .success

/-- A response, upon whose sending the handshake is finished with the code. -/
def send (answer : Answer) (shake : Code) : ProtocolElectrumVersion :=
  { protocol with
    answers := protocol.answers ++ [answer]
    sends := protocol.sends ++ [shake] }

def handleServerVersion (clientName : String) (protocolVersion : Value) :
    ProtocolElectrumVersion :=
  if protocol.channel.stopped then protocol
  else
    let paused := if protocol.handler then protocol.pause else protocol
    if paused.channel.negotiated && .v1_4 ≤ paused.channel.version then
      paused.send (.code .badRequest) .success
    else
      let named := { paused with channel := setClient system paused.channel clientName }
      match setVersion system named.options named.channel protocolVersion with
      | none =>
          if named.handler then named.send (.code .badRequest) .badRequest
          else
            { named with
              channel := { named.channel with stopped := true }
              answers := named.answers ++ [.stop .badRequest] }
      | some channel =>
          { named with channel }.send
            (.result (system.versionResult channel.version named.options.serverName)) .success

/-- Requests arrive while the channel is not paused, which the session resumes once
    the handshake has completed. -/
def step : Event → ProtocolElectrumVersion
  | .serverVersion clientName protocolVersion =>
      if protocol.channel.paused then protocol
      else protocol.handleServerVersion system clientName protocolVersion
  | .unclaimed => if protocol.channel.paused then protocol else protocol.handleUnclaimed
  | .sent index success =>
      match protocol.sends[index]? with
      | none => protocol
      | some shake =>
          { protocol with sends := protocol.sends.eraseIdx index }.finished success shake
  | .resume =>
      if protocol.handler then protocol
      else { protocol with channel := { protocol.channel with paused := false } }
  | .stop => { protocol with channel := { protocol.channel with stopped := true } }

end ProtocolElectrumVersion

/-! ## What one step keeps -/

/-- A channel whose version, once negotiated, is within the configured range and
    within the restricted one where it is restricted. -/
structure ChannelElectrum.Within (options : Options) (channel : ChannelElectrum) : Prop where
  minimum : channel.negotiated = true → options.protocolMinimum ≤ versionToNumber channel.version
  maximum : channel.negotiated = true → versionToNumber channel.version ≤ options.protocolMaximum
  restricted : channel.negotiated = true → channel.restricted = true →
    versionToNumber channel.version ≤ versionToNumber restrictedMaximum

/-- What `set_version` does of a channel that it accepts. -/
structure Accepted (options : Options) (before after : ChannelElectrum) : Prop where
  within : after.Within options
  negotiated : after.negotiated = true
  version : before.negotiated = true → after.version = before.version
  paused : after.paused = before.paused

variable {system : System} {options : Options} {channel after : ChannelElectrum}

theorem ceiling_le (options : Options) (channel : ChannelElectrum) :
    ceiling options channel ≤ options.protocolMaximum := by
  unfold ceiling
  split_ifs
  · exact min_le_left _ _
  · exact le_rfl

theorem ceiling_le_restricted (restricted : channel.restricted = true) :
    ceiling options channel ≤ versionToNumber restrictedMaximum := by
  rw [ceiling, if_pos restricted]
  exact min_le_right _ _

theorem setVersion_accepted {version : Value}
    (accepted : setVersion system options channel version = some after) :
    Accepted options channel after := by
  unfold setVersion computedVersion at accepted
  dsimp only at accepted
  split_ifs at accepted with refused
  obtain ⟨settled, agrees⟩ := not_or.mp refused
  obtain ⟨lower, upper⟩ := System.negotiate_within settled
  cases accepted
  refine ⟨⟨fun _ => lower, fun _ => upper.trans (ceiling_le options channel), ?_⟩, rfl, ?_, rfl⟩
  · intro _ restricted
    exact upper.trans (ceiling_le_restricted restricted)
  · intro negotiated
    by_contra different
    exact agrees ⟨negotiated, different⟩

namespace ProtocolElectrumVersion

/-- The handshake completes once, its version stays within range, and while it is
    under way a negotiated channel is paused. -/
structure Shaking (protocol : ProtocolElectrumVersion) : Prop where
  once : protocol.invoked.length + (if protocol.handler then 1 else 0) ≤ 1
  within : protocol.channel.Within protocol.options
  paused : protocol.handler = true → protocol.channel.negotiated = true →
    protocol.channel.paused = true

/-- What a step does to a negotiated channel: its version stands. -/
structure Keeps (before after : ProtocolElectrumVersion) : Prop where
  options : after.options = before.options
  negotiated : before.channel.negotiated = true → after.channel.negotiated = true
  version : before.channel.negotiated = true → after.channel.version = before.channel.version

variable {protocol : ProtocolElectrumVersion}

theorem Keeps.of_channel {after : ProtocolElectrumVersion}
    (options : after.options = protocol.options) (channel : after.channel = protocol.channel) :
    Keeps protocol after where
  options := options
  negotiated := by simp [channel]
  version := by simp [channel]

theorem finished_channel (success : Bool) (shake : Code) :
    (protocol.finished success shake).channel = protocol.channel := by
  unfold finished
  split_ifs <;> rfl

theorem finished_options (success : Bool) (shake : Code) :
    (protocol.finished success shake).options = protocol.options := by
  unfold finished
  split_ifs <;> rfl

theorem Shaking.finished (shaking : protocol.Shaking) (success : Bool) (shake : Code) :
    (protocol.finished success shake).Shaking := by
  have once := shaking.once
  unfold ProtocolElectrumVersion.finished
  split_ifs with stopped handler
  · exact shaking
  · refine ⟨?_, shaking.within, by simp⟩
    rw [if_pos handler] at once
    simpa using once
  · exact shaking

theorem Shaking.handleUnclaimed (shaking : protocol.Shaking)
    (active : protocol.channel.paused = false) :
    protocol.handleUnclaimed.Shaking ∧ Keeps protocol protocol.handleUnclaimed := by
  unfold ProtocolElectrumVersion.handleUnclaimed
  split_ifs with none
  · exact ⟨shaking, .of_channel rfl rfl⟩
  · have handler : protocol.handler = true := by simpa using none
    have fresh : protocol.channel.negotiated = false := by
      by_contra negotiated
      have paused := shaking.paused handler (by simpa using negotiated)
      rw [active] at paused
      cases paused
    constructor
    · apply Shaking.finished
      refine ⟨shaking.once, ⟨?_, ?_, ?_⟩, fun _ _ => rfl⟩
      all_goals simp [pause, fresh]
    · refine ⟨finished_options _ _, ?_, ?_⟩
      all_goals simp [fresh]

/-- A server.version's channel before its version is set: paused while the handshake
    is under way, and perhaps with another client name. -/
structure Prepared (before after : ProtocolElectrumVersion) : Prop where
  options : after.options = before.options
  handler : after.handler = before.handler
  invoked : after.invoked = before.invoked
  answers : after.answers = before.answers
  version : after.channel.version = before.channel.version
  restricted : after.channel.restricted = before.channel.restricted
  negotiated : after.channel.negotiated = before.channel.negotiated
  paused : before.handler = true → after.channel.paused = true

theorem prepared_pause :
    Prepared protocol (if protocol.handler then protocol.pause else protocol) := by
  by_cases handler : protocol.handler = true
  · rw [if_pos handler]
    exact ⟨rfl, rfl, rfl, rfl, rfl, rfl, rfl, fun _ => rfl⟩
  · rw [if_neg handler]
    exact ⟨rfl, rfl, rfl, rfl, rfl, rfl, rfl, fun present => absurd present handler⟩

namespace Prepared

variable {after : ProtocolElectrumVersion}

theorem client (prepared : Prepared protocol after) (client : String) :
    Prepared protocol { after with channel := { after.channel with client } } :=
  { prepared with }

theorem shaking (prepared : Prepared protocol after) (shaking : protocol.Shaking) :
    after.Shaking where
  once := by
    rw [prepared.invoked, prepared.handler]
    exact shaking.once
  within := by
    have within := shaking.within
    rw [prepared.options]
    refine ⟨?_, ?_, ?_⟩
    · rw [prepared.negotiated, prepared.version]
      exact within.minimum
    · rw [prepared.negotiated, prepared.version]
      exact within.maximum
    · rw [prepared.negotiated, prepared.version, prepared.restricted]
      exact within.restricted
  paused := by
    intro handler _
    rw [prepared.handler] at handler
    exact prepared.paused handler

theorem keeps (prepared : Prepared protocol after) : Keeps protocol after where
  options := prepared.options
  negotiated := by simp [prepared.negotiated]
  version := by simp [prepared.version]

end Prepared

/-- A server.version was refused: by its response, or by a stop of the channel. -/
def Refused (before after : ProtocolElectrumVersion) : Prop :=
  after.answers = before.answers ++ [.code .badRequest] ∨
    after.answers = before.answers ++ [.stop .badRequest]

/-- What `handle_server_version` can do. -/
inductive Served (before : ProtocolElectrumVersion) : ProtocolElectrumVersion → Prop where
  | ignored : Served before before
  | refused (prepared : ProtocolElectrumVersion) (shake : Code) (same : Prepared before prepared) :
      Served before (prepared.send (.code .badRequest) shake)
  | stopped (prepared : ProtocolElectrumVersion) (same : Prepared before prepared) :
      Served before { prepared with
        channel := { prepared.channel with stopped := true }
        answers := prepared.answers ++ [.stop .badRequest] }
  | accepted (prepared : ProtocolElectrumVersion) (same : Prepared before prepared)
      (channel : ChannelElectrum) (accepted : Accepted prepared.options prepared.channel channel)
      (value : Value) : Served before ({ prepared with channel }.send (.result value) .success)

/-- The client name is all of the channel that `set_client` sets. -/
theorem setClient_eq (system : System) (channel : ChannelElectrum) (name : String) :
    ∃ client, setClient system channel name = { channel with client } := ⟨_, rfl⟩

theorem handleServerVersion_served (clientName : String) (protocolVersion : Value) :
    Served protocol (protocol.handleServerVersion system clientName protocolVersion) := by
  unfold handleServerVersion
  dsimp only
  have paused : Prepared protocol (if protocol.handler then protocol.pause else protocol) :=
    prepared_pause
  generalize (if protocol.handler then protocol.pause else protocol) = prepared at paused ⊢
  obtain ⟨client, same⟩ := setClient_eq system prepared.channel clientName
  rw [same]
  have named := paused.client client
  split
  · exact .ignored
  · split
    · exact .refused prepared .success paused
    · split
      · split
        · exact .refused _ .badRequest named
        · exact .stopped _ named
      · next channel accepted => exact .accepted _ named channel (setVersion_accepted accepted) _

theorem Shaking.served {after : ProtocolElectrumVersion} (shaking : protocol.Shaking)
    (served : Served protocol after) : after.Shaking ∧ Keeps protocol after := by
  cases served with
  | ignored => exact ⟨shaking, .of_channel rfl rfl⟩
  | refused prepared shake same =>
      have kept := same.shaking shaking
      exact ⟨⟨kept.once, kept.within, kept.paused⟩, { same.keeps with }⟩
  | stopped prepared same =>
      have kept := same.shaking shaking
      exact ⟨⟨kept.once, { kept.within with }, kept.paused⟩, { same.keeps with }⟩
  | accepted prepared same channel accepted value =>
      have kept := same.shaking shaking
      refine ⟨⟨kept.once, accepted.within, ?_⟩, same.options, fun _ => accepted.negotiated, ?_⟩
      · intro handler _
        exact accepted.paused.trans (same.paused (same.handler.symm.trans handler))
      · intro negotiated
        exact (accepted.version (same.negotiated.trans negotiated)).trans same.version

/-- A refused server.version leaves the version and the negotiation. -/
theorem served_refused {after : ProtocolElectrumVersion} (served : Served protocol after)
    (refused : Refused protocol after) :
    after.channel.version = protocol.channel.version ∧
      after.channel.negotiated = protocol.channel.negotiated := by
  cases served with
  | ignored => exact ⟨rfl, rfl⟩
  | refused prepared shake same => exact ⟨same.version, same.negotiated⟩
  | stopped prepared same => exact ⟨same.version, same.negotiated⟩
  | accepted prepared same channel accepted value =>
      simp [Refused, send, same.answers] at refused

theorem Shaking.step (shaking : protocol.Shaking) (event : Event) :
    (protocol.step system event).Shaking ∧ Keeps protocol (protocol.step system event) := by
  cases event with
  | serverVersion clientName protocolVersion =>
      simp only [ProtocolElectrumVersion.step]
      split_ifs
      · exact ⟨shaking, .of_channel rfl rfl⟩
      · exact shaking.served (handleServerVersion_served clientName protocolVersion)
  | unclaimed =>
      simp only [ProtocolElectrumVersion.step]
      split_ifs with paused
      · exact ⟨shaking, .of_channel rfl rfl⟩
      · exact shaking.handleUnclaimed (by simpa using paused)
  | sent index success =>
      simp only [ProtocolElectrumVersion.step]
      split
      · exact ⟨shaking, .of_channel rfl rfl⟩
      · constructor
        · apply Shaking.finished
          exact ⟨shaking.once, shaking.within, shaking.paused⟩
        · exact .of_channel (finished_options _ _) (finished_channel _ _)
  | resume =>
      simp only [ProtocolElectrumVersion.step]
      split_ifs with handler
      · exact ⟨shaking, .of_channel rfl rfl⟩
      · refine ⟨⟨shaking.once, { shaking.within with }, ?_⟩, ⟨rfl, id, fun _ => rfl⟩⟩
        intro present
        exact absurd present handler
  | stop =>
      exact ⟨⟨shaking.once, { shaking.within with }, shaking.paused⟩, ⟨rfl, id, fun _ => rfl⟩⟩

theorem run_shaking (shaking : protocol.Shaking) (events : List Event) :
    (Run.final (step system) protocol events).Shaking ∧
      Keeps protocol (Run.final (step system) protocol events) := by
  induction events generalizing protocol with
  | nil => exact ⟨shaking, .of_channel rfl rfl⟩
  | cons event events ih =>
      obtain ⟨next, first⟩ := shaking.step event
      obtain ⟨last, rest⟩ := ih next
      refine ⟨last, rest.options.trans first.options, ?_, ?_⟩
      · intro negotiated
        exact rest.negotiated (first.negotiated negotiated)
      · intro negotiated
        exact (rest.version (first.negotiated negotiated)).trans (first.version negotiated)

theorem shake_shaking (options : Options) : (shake options).Shaking where
  once := by simp [shake]
  within := ⟨by simp [shake], by simp [shake], by simp [shake]⟩
  paused := by simp [shake]

/-- After the handshake a request of another method does nothing here. -/
theorem handleUnclaimed_of_invoked (shaking : protocol.Shaking)
    (completed : protocol.invoked ≠ []) : protocol.handleUnclaimed = protocol := by
  have once := shaking.once
  have positive := List.length_pos_iff.mpr completed
  have handler : protocol.handler = false := by
    by_contra present
    rw [if_pos (by simpa using present)] at once
    omega
  simp [handleUnclaimed, handler]

/-- In every state a handshake can reach: its handler was invoked at most once; a
    negotiated version is within range, restricted where the channel is, and stands
    from then on; other requests after the handshake leave the version, and so does a
    refused server.version with the negotiation. -/
theorem negotiated_once (system : System) (options : Options) (events : List Event) :
    let protocol := Run.final (step system) (shake options) events
    protocol.invoked.length ≤ 1 ∧
      (protocol.channel.negotiated = true →
        (options.protocolMinimum ≤ versionToNumber protocol.channel.version ∧
          versionToNumber protocol.channel.version ≤ options.protocolMaximum) ∧
        (protocol.channel.restricted = true →
          versionToNumber protocol.channel.version ≤ versionToNumber restrictedMaximum) ∧
        ∀ later, (Run.final (step system) protocol later).channel.version =
          protocol.channel.version) ∧
      (protocol.invoked ≠ [] →
        (protocol.step system .unclaimed).channel.version = protocol.channel.version) ∧
      ∀ clientName protocolVersion,
        Refused protocol (protocol.step system (.serverVersion clientName protocolVersion)) →
        (protocol.step system (.serverVersion clientName protocolVersion)).channel.version =
            protocol.channel.version ∧
          (protocol.step system (.serverVersion clientName protocolVersion)).channel.negotiated =
            protocol.channel.negotiated := by
  intro protocol
  obtain ⟨shaking, kept⟩ : protocol.Shaking ∧ Keeps (shake options) protocol :=
    run_shaking (shake_shaking options) events
  have within := shaking.within
  rw [kept.options] at within
  refine ⟨?_, ?_, ?_, ?_⟩
  · have once := shaking.once
    omega
  · intro negotiated
    refine ⟨⟨within.minimum negotiated, within.maximum negotiated⟩, within.restricted negotiated,
      ?_⟩
    intro later
    exact (run_shaking shaking later).2.version negotiated
  · intro completed
    simp only [step]
    rw [handleUnclaimed_of_invoked shaking completed, ite_self]
  · intro clientName protocolVersion refused
    simp only [step] at refused ⊢
    split_ifs at refused ⊢
    · exact ⟨rfl, rfl⟩
    · exact served_refused (handleServerVersion_served clientName protocolVersion) refused

end ProtocolElectrumVersion

end LibbitcoinServer.Electrum.Handshake
