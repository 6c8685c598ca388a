import Mathlib.Data.String.Basic
import LibbitcoinServer.Electrum.Handshake
import LibbitcoinServer.Lib.OrderedMap

/-! # Normalization of electrum requests

Before dispatch a server.version is given the arguments it lacks, and is rid of
those it has too many where its version tolerates them.  That version is negotiated
here once more, from the configured range alone.
-/

namespace LibbitcoinServer.Electrum.Handshake

inductive Params where
  | positional (values : List Value)
  | named (entries : OrderedMap String Value)
  | single (value : Value)

structure Request where
  method : String
  params : Option Params

/-- `server_version::name`. -/
def serverVersionName : String := "server.version"

/-- The parameter names of server.version. -/
def serverVersionNames : List String := ["client_name", "protocol_version"]

/-- `transaction_get::name`. -/
def transactionGetName : String := "blockchain.transaction.get"

namespace Params

/-- The default protocol_version is the minimum served. -/
def lowest (system : System) (minimum : Number) : Value := .string (system.toText minimum)

/-- The two pushes of positional arguments. -/
def supply (lowest : Value) : List Value → List Value
  | [] => [.string "", lowest]
  | [client] => [client, lowest]
  | values => values

/-- The arguments of server.version, with those that are absent. -/
def supplied (lowest : Value) : Params → Params
  | .single value => .positional [value, lowest]
  | .positional values => .positional (supply lowest values)
  | .named entries => .named (entries.tryEmplace "protocol_version" lowest)

/-- The client_name argument. -/
def clientName : Params → Option Value
  | .single value => some value
  | .positional values => values[0]?
  | .named entries => entries.find? "client_name"

/-- The protocol_version argument. -/
def protocolVersion : Params → Option Value
  | .single _ => none
  | .positional values => values[1]?
  | .named entries => entries.find? "protocol_version"

/-- Arguments beyond those of server.version. -/
def Extraneous : Params → Prop
  | .single _ => False
  | .positional values => serverVersionNames.length < values.length
  | .named entries => ∃ key ∉ serverVersionNames, entries.find? key ≠ none

def purge : Params → Params
  | .single value => .single value
  | .positional values =>
      if values.length > serverVersionNames.length then
        .positional (values.take serverVersionNames.length)
      else .positional values
  | .named entries => .named (entries.eraseIf fun key => key ∉ serverVersionNames)

end Params

/-- The server.version branch of `electrum_request`. -/
def versionRequest (system : System) (params : Params) (minimum maximum : Number) : Params :=
  let params := params.supplied (Params.lowest system minimum)
  match params.protocolVersion with
  | none => params
  | some requested =>
      if system.negotiate requested minimum maximum < .v1_6 then params else params.purge

def electrumRequest (system : System) (message : Request) (version : Version)
    (minimum maximum : Number) : Request :=
  if message.method = serverVersionName then
    { message with
      params := some
        (versionRequest system (message.params.getD (.positional [])) minimum maximum) }
  else if message.method = transactionGetName ∧ version < .v1_1 then
    match message.params with
    | some (.positional values) =>
        if values.length = 2 then { message with params := some (.positional (values.take 1)) }
        else message
    | some (.named entries) =>
        { message with params := some (.named (entries.erase "height")) }
    | _ => message
  else message

namespace Params

/-! ## What normalization leaves -/

variable {system : System} {params : Params} {minimum maximum : Number} {value : Value}

theorem supplied_protocolVersion (lowest : Value) :
    (params.supplied lowest).protocolVersion = some (params.protocolVersion.getD lowest) := by
  cases params with
  | single value => rfl
  | positional values =>
      match values with
      | [] => rfl
      | [client] => rfl
      | client :: version :: rest => rfl
  | named entries =>
      simp only [supplied, protocolVersion]
      cases present : entries.find? "protocol_version" with
      | none => exact OrderedMap.find?_tryEmplace_absent present
      | some value =>
          rw [OrderedMap.tryEmplace_present present]
          exact present

theorem supplied_clientName (lowest : Value) (supplied : params.clientName = some value) :
    (params.supplied lowest).clientName = some value := by
  cases params with
  | single client => exact supplied
  | positional values =>
      match values with
      | [] => cases supplied
      | [client] => exact supplied
      | client :: version :: rest => exact supplied
  | named entries =>
      have different : "client_name" ≠ "protocol_version" := by decide
      rw [← supplied]
      exact OrderedMap.find?_tryEmplace_ne different

theorem purge_protocolVersion : params.purge.protocolVersion = params.protocolVersion := by
  cases params with
  | single value => rfl
  | positional values =>
      simp only [purge]
      split_ifs
      · simp [protocolVersion, serverVersionNames]
      · rfl
  | named entries => simp [purge, protocolVersion, OrderedMap.find?_eraseIf, serverVersionNames]

theorem purge_clientName : params.purge.clientName = params.clientName := by
  cases params with
  | single value => rfl
  | positional values =>
      simp only [purge]
      split_ifs
      · simp [clientName, serverVersionNames]
      · rfl
  | named entries => simp [purge, clientName, OrderedMap.find?_eraseIf, serverVersionNames]

theorem not_extraneous_purge : ¬params.purge.Extraneous := by
  cases params with
  | single value => exact id
  | positional values =>
      simp only [purge]
      split_ifs with long
      · simp [Extraneous]
      · exact long
  | named entries =>
      rintro ⟨key, outside, present⟩
      simp [OrderedMap.find?_eraseIf, outside] at present

theorem purge_of_not_extraneous (tidy : ¬params.Extraneous) : params.purge = params := by
  cases params with
  | single value => rfl
  | positional values => exact if_neg tidy
  | named entries =>
      simp only [purge]
      rw [OrderedMap.eraseIf_of_none]
      intro entry member
      by_contra outside
      have present := OrderedMap.find?_eq_some.mpr member
      exact tidy ⟨entry.1, by simpa using outside, by simp [present]⟩

/-- Supplying arguments adds none that are extraneous. -/
theorem extraneous_supplied (lowest : Value) :
    (params.supplied lowest).Extraneous ↔ params.Extraneous := by
  cases params with
  | single value => simp [supplied, Extraneous, serverVersionNames]
  | positional values =>
      match values with
      | [] => simp [supplied, supply, Extraneous, serverVersionNames]
      | [client] => simp [supplied, supply, Extraneous, serverVersionNames]
      | client :: version :: rest => rfl
  | named entries =>
      apply exists_congr
      intro key
      apply and_congr_right
      intro outside
      have different : key ≠ "protocol_version" := by
        intro same
        exact outside (by simp [same, serverVersionNames])
      rw [OrderedMap.find?_tryEmplace_ne different]

theorem supplied_of_present {lowest : Value} (present : params.protocolVersion = some value) :
    params.supplied lowest = params := by
  cases params with
  | single client => cases present
  | positional values =>
      match values with
      | [] => cases present
      | [client] => cases present
      | client :: version :: rest => rfl
  | named entries =>
      simp only [supplied]
      rw [OrderedMap.tryEmplace_present present]

/-- The protocol_version that normalization negotiates. -/
def requested (system : System) (minimum : Number) (params : Params) : Value :=
  params.protocolVersion.getD (lowest system minimum)

theorem versionRequest_eq : versionRequest system params minimum maximum =
    if system.negotiate (requested system minimum params) minimum maximum < .v1_6 then
      params.supplied (lowest system minimum)
    else (params.supplied (lowest system minimum)).purge := by
  unfold versionRequest
  simp only [supplied_protocolVersion]
  rfl

theorem versionRequest_protocolVersion :
    (versionRequest system params minimum maximum).protocolVersion =
      some (requested system minimum params) := by
  rw [versionRequest_eq]
  split_ifs
  · exact supplied_protocolVersion _
  · rw [purge_protocolVersion]
    exact supplied_protocolVersion _

theorem versionRequest_clientName (supplied : params.clientName = some value) :
    (versionRequest system params minimum maximum).clientName = some value := by
  rw [versionRequest_eq]
  split_ifs
  · exact supplied_clientName _ supplied
  · rw [purge_clientName]
    exact supplied_clientName _ supplied

/-- Extraneous arguments stay below 1.6 and go from there. -/
theorem versionRequest_extraneous (extraneous : params.Extraneous) :
    ¬(versionRequest system params minimum maximum).Extraneous ↔
      ¬system.negotiate (requested system minimum params) minimum maximum < .v1_6 := by
  rw [versionRequest_eq]
  split_ifs with below
  · simp [below, extraneous_supplied, extraneous]
  · simp [below, not_extraneous_purge]

theorem versionRequest_idempotent :
    versionRequest system (versionRequest system params minimum maximum) minimum maximum =
      versionRequest system params minimum maximum := by
  have present : (versionRequest system params minimum maximum).protocolVersion =
      some (requested system minimum params) := versionRequest_protocolVersion
  rw [versionRequest_eq, supplied_of_present present]
  have same : requested system minimum (versionRequest system params minimum maximum) =
      requested system minimum params := by
    rw [requested, present, Option.getD_some]
  rw [same]
  split_ifs with below
  · rfl
  · apply purge_of_not_extraneous
    rw [versionRequest_eq, if_neg below]
    exact not_extraneous_purge

end Params

/-- What a server.version's normalization owes the handshake: `given` are the
    arguments of the request and `after` those it is dispatched with. -/
structure Normalized (system : System) (options : Options) (channel : ChannelElectrum)
    (given : Option Params) (after : Params) : Prop where
  supplied : given.bind Params.protocolVersion = none →
    after.protocolVersion = some (Params.lowest system options.protocolMinimum)
  clientName : ∀ value, given.bind Params.clientName = some value →
    after.clientName = some value
  protocolVersion : ∀ value, given.bind Params.protocolVersion = some value →
    after.protocolVersion = some value
  idempotent : electrumRequest system ⟨serverVersionName, some after⟩ channel.version
    options.protocolMinimum options.protocolMaximum = ⟨serverVersionName, some after⟩
  removes : (∃ params, given = some params ∧ params.Extraneous) →
    (¬after.Extraneous ↔ ∃ requested, after.protocolVersion = some requested ∧
      .v1_6 ≤ computedVersion system options channel requested)

/-- The request has extraneous arguments, and only the restriction of its channel keeps
    it from a version that tolerates them. -/
def Drifts (system : System) (options : Options) (channel : ChannelElectrum)
    (given : Option Params) : Prop :=
  channel.restricted = true ∧ ∃ params, given = some params ∧ params.Extraneous ∧
    .v1_6 ≤ system.negotiate (params.requested system options.protocolMinimum)
      options.protocolMinimum options.protocolMaximum

variable {system : System} {options : Options} {channel : ChannelElectrum}

theorem computedVersion_of_restricted (restricted : channel.restricted = true)
    (requested : Value) : computedVersion system options channel requested < .v1_6 := by
  by_cases settled : computedVersion system options channel requested = .v0_0
  · rw [settled]
    decide
  · apply lt_of_restricted
    exact (System.negotiate_within settled).2.trans (ceiling_le_restricted restricted)

theorem computedVersion_of_unrestricted (free : ¬channel.restricted = true) (requested : Value) :
    computedVersion system options channel requested =
      system.negotiate requested options.protocolMinimum options.protocolMaximum := by
  rw [computedVersion, ceiling, if_neg free]

/-- The normalization of extraneous arguments agrees with the handshake unless the
    request drifts. -/
theorem removes_iff {params : Params} (extraneous : params.Extraneous) :
    (¬(versionRequest system params options.protocolMinimum options.protocolMaximum).Extraneous ↔
      .v1_6 ≤ computedVersion system options channel
        (params.requested system options.protocolMinimum)) ↔
      ¬(channel.restricted = true ∧
        .v1_6 ≤ system.negotiate (params.requested system options.protocolMinimum)
          options.protocolMinimum options.protocolMaximum) := by
  rw [Params.versionRequest_extraneous extraneous, Version.not_lt]
  by_cases restricted : channel.restricted = true
  · have below : ¬.v1_6 ≤ computedVersion system options channel
        (params.requested system options.protocolMinimum) := by
      rw [← Version.not_lt, not_not]
      exact computedVersion_of_restricted restricted _
    simp [below, restricted]
  · rw [computedVersion_of_unrestricted restricted]
    simp [restricted]

theorem electrumRequest_version (given : Option Params) (version : Version)
    (minimum maximum : Number) :
    electrumRequest system ⟨serverVersionName, given⟩ version minimum maximum =
      ⟨serverVersionName, some (versionRequest system (given.getD (.positional [])) minimum
        maximum)⟩ := by
  simp [electrumRequest]

theorem not_normalized_of_drifts {given : Option Params} {after : Params}
    (drifts : Drifts system options channel given)
    (request : electrumRequest system ⟨serverVersionName, given⟩ channel.version
      options.protocolMinimum options.protocolMaximum = ⟨serverVersionName, some after⟩) :
    ¬Normalized system options channel given after := by
  intro normalized
  obtain ⟨restricted, params, rfl, extraneous, above⟩ := drifts
  rw [electrumRequest_version] at request
  simp only [Request.mk.injEq, true_and, Option.some.injEq, Option.getD_some] at request
  subst request
  have removes := normalized.removes ⟨params, rfl, extraneous⟩
  simp only [Params.versionRequest_protocolVersion, Option.some.injEq, exists_eq_left'] at removes
  exact (removes_iff extraneous).mp removes ⟨restricted, above⟩

/-- A server.version, with whatever arguments and on whatever channel, is normalized as
    the handshake needs exactly when it does not drift. -/
theorem normalized_iff (system : System) (options : Options) (channel : ChannelElectrum)
    (given : Option Params) :
    (∃ after, electrumRequest system ⟨serverVersionName, given⟩ channel.version
        options.protocolMinimum options.protocolMaximum = ⟨serverVersionName, some after⟩ ∧
      Normalized system options channel given after) ↔ ¬Drifts system options channel given := by
  constructor
  · rintro ⟨after, request, normalized⟩ drifts
    exact not_normalized_of_drifts drifts request normalized
  · intro steady
    have version : given.bind Params.protocolVersion =
        (given.getD (.positional [])).protocolVersion := by
      cases given <;> rfl
    have client : given.bind Params.clientName = (given.getD (.positional [])).clientName := by
      cases given <;> rfl
    refine ⟨_, electrumRequest_version given _ _ _, ?_, ?_, ?_, ?_, ?_⟩
    · intro missing
      rw [Params.versionRequest_protocolVersion, Params.requested, ← version, missing,
        Option.getD_none]
    · intro value present
      exact Params.versionRequest_clientName (client.symm.trans present)
    · intro value present
      rw [Params.versionRequest_protocolVersion, Params.requested, ← version, present,
        Option.getD_some]
    · rw [electrumRequest_version, Option.getD_some, Params.versionRequest_idempotent]
    · rintro ⟨params, rfl, extraneous⟩
      simp only [Option.getD_some, Params.versionRequest_protocolVersion, Option.some.injEq,
        exists_eq_left']
      apply (removes_iff extraneous).mpr
      rintro ⟨restricted, above⟩
      exact steady ⟨restricted, params, rfl, extraneous, above⟩

/-- The two texts that the request below asks a range of. -/
private def texts : System where
  toNumber text :=
    if text = "1.4" then some (number 1 4) else if text = "1.6" then some (number 1 6) else none
  toText _ := "1.0"
  isAsciiCharacter _ := true
  isAsciiWhitespace _ := false

/-- After an opener that is no version the channel is restricted, and a third argument of a
    server.version is purged for 1.6 where 1.4.2 is negotiated. -/
theorem restricted_purged : ¬∀ system options events given,
    let shaken := Run.final (ProtocolElectrumVersion.step system) (.shake options) events
    ∃ after, electrumRequest system ⟨serverVersionName, given⟩ shaken.channel.version
        options.protocolMinimum options.protocolMaximum = ⟨serverVersionName, some after⟩ ∧
      Normalized system options shaken.channel given after := by
  intro all
  obtain ⟨after, request, normalized⟩ := all texts ⟨number 1 0, number 1 7, ""⟩
    [.unclaimed, .resume]
    (some (.positional [.string "", .array [.string "1.4", .string "1.6"], .string ""]))
  refine not_normalized_of_drifts ⟨rfl, _, rfl, ?_, by decide +kernel⟩ request normalized
  simp [Params.Extraneous, serverVersionNames]

end LibbitcoinServer.Electrum.Handshake
