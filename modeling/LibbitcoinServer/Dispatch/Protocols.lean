import Mathlib.Tactic

/-! # Request dispatch of the json-rpc services

Each attached protocol sees a request in attachment order and takes its turn on
the channel: it defers, responds, stops the channel, or invokes the handler of an
interface method.  What the network library decides (the dispatcher of an
interface, the methods of a credential, the outcome of a login, the parsed target
of a get) is a `Network` parameter; a handler other than `authenticate` is known
here only by its invocation.
-/

namespace LibbitcoinServer.Dispatch

inductive Version where
  | undefined
  | v1
  | v2
  deriving DecidableEq

inductive Identity where
  | null
  | number (value : Int)
  | text (value : String)
  deriving DecidableEq

/-- A `request_t`, and whether its body holds a batch. -/
structure Message (Params : Type) where
  jsonrpc : Version
  id : Option Identity
  method : String
  params : Params
  batched : Bool

/-- A version 2 request without an id expects no response object. -/
def Message.notification {Params : Type} (message : Message Params) : Bool :=
  message.jsonrpc == .v2 && message.id.isNone

inductive Transport where
  | post
  | get
  | websocket
  | downgraded
  deriving DecidableEq

/-- Websocket frames and the messages of a tcp downgrade carry no http envelope
    and are both dispatched through `dispatch_websocket`. -/
def Transport.duplex : Transport → Bool
  | .post | .get => false
  | .websocket | .downgraded => true

structure Request (Params : Type) where
  allowedHost : Bool
  allowedOrigin : Bool
  body : Option (Message Params)
  target : String

inductive Subgroup where
  | blockchain
  | control
  | mining
  | network
  | notifications
  | test
  | transaction
  | utility
  | wallet
  deriving DecidableEq

inductive Interface where
  | electrumHandshake
  | electrum
  | sparrow
  | btcd
  | rest
  | subgroup (group : Subgroup)
  deriving DecidableEq

inductive Code where
  | unauthorized
  | invalidArgument
  | methodNotFound
  | invalidParams
  | missingParameter
  | invalidHash
  | invalidNumber
  | missingHash
  | missingHeight
  | missingTarget
  | other (value : Nat)
  deriving DecidableEq

inductive Response where
  | badHost
  | forbidden
  | badRequest
  | notFound
  | methodNotAllowed
  | noContent
  | error (code : Code)
  | result
  deriving DecidableEq

inductive Effect where
  | invoke (interface : Interface) (method : String)
  | respond (response : Response)
  | stop (code : Code)
  deriving DecidableEq

/-- What dispatch takes from the network library.  `notify` returns a code where
    the request does not fit the method, and otherwise invokes its handler. -/
structure Network (Params Credential : Type) where
  contains : Interface → String → Bool
  notify : Interface → Message Params → Option Code
  permits : Credential → String → Bool
  login : Message Params → Option Credential
  bitcoindTarget : String → Except Code (Message Params)
  bitcoindQuery : Message Params → String → Option (Message Params)

structure Channel (Credential : Type) where
  claimed : Bool
  stopped : Bool
  authorized : Bool
  credential : Credential
  shaking : Bool

/-- A protocol's turn on a request: the channel it leaves and what it did. -/
abbrev Turn (Credential : Type) := Channel Credential × List Effect

namespace Channel

variable {Credential : Type} (channel : Channel Credential)

def claim : Channel Credential := { channel with claimed := true }

def defer : Turn Credential := (channel, [])

def respond (response : Response) : Turn Credential := (channel, [.respond response])

def stop (code : Code) : Turn Credential := ({ channel with stopped := true }, [.stop code])

end Channel

variable {Params Credential : Type} (net : Network Params Credential)

def Network.permitted (channel : Channel Credential) (method : String) : Bool :=
  net.permits channel.credential method

/-- `protocol_bitcoind::send_rpc`, closing the channel afterwards when given a
    reason.  A notification frame is answered by nothing at all. -/
def sendRpc (transport : Transport) (message : Message Params) (model : Response)
    (closeReason : Option Code) (channel : Channel Credential) : Turn Credential :=
  if transport.duplex && message.notification then
    match closeReason with
    | some code => channel.stop code
    | none => channel.defer
  else
    let sent := if message.notification && !message.batched then Response.noContent else model
    match closeReason with
    | some code => ({ channel with stopped := true }, [.respond sent, .stop code])
    | none => channel.respond sent

def sendError (transport : Transport) (message : Message Params) (code : Code)
    (channel : Channel Credential) : Turn Credential :=
  sendRpc transport message (.error code) none channel

def authenticate : String := "authenticate"

/-- `protocol_btcd::handle_authenticate`. -/
def handleAuthenticate (transport : Transport) (message : Message Params)
    (channel : Channel Credential) : Turn Credential :=
  match net.login message with
  | some credential =>
      sendRpc transport message .result none { channel with authorized := true, credential }
  | none => sendRpc transport message (.error .unauthorized) (some .unauthorized) channel

/-- The handler bound to the method runs; only `authenticate` changes the channel. -/
def invoke (transport : Transport) (interface : Interface) (message : Message Params)
    (channel : Channel Credential) : Turn Credential :=
  let (channel, effects) := if interface = .btcd ∧ message.method = authenticate
    then handleAuthenticate net transport message channel else channel.defer
  (channel, .invoke interface message.method :: effects)

/-- `if (const auto code = dispatcher.notify(message)) stop(code);` -/
def dispatch (transport : Transport) (interface : Interface) (message : Message Params)
    (channel : Channel Credential) : Turn Credential :=
  match net.notify interface message with
  | some code => channel.stop code
  | none => invoke net transport interface message channel

namespace ProtocolRpc

variable (interface : Interface)
  (handleUnclaimed : Transport → Message Params → Channel Credential → Turn Credential)

def handleReceivePost (post : Request Params) (channel : Channel Credential) :
    Turn Credential :=
  if channel.stopped then channel.defer
  else if channel.claimed then channel.defer
  else if !post.allowedHost then channel.claim.respond .badHost
  else if !post.allowedOrigin then channel.claim.respond .forbidden
  else match post.body with
  | none => channel.claim.respond .badRequest
  | some message =>
      if !net.contains interface message.method then handleUnclaimed .post message channel
      else if !net.permitted channel message.method then channel.claim.respond .forbidden
      else dispatch net .post interface message channel.claim

def dispatchWebsocket (transport : Transport) (request : Request Params)
    (channel : Channel Credential) : Turn Credential :=
  if channel.stopped then channel.defer
  else if channel.claimed then channel.defer
  else if !channel.authorized then channel.stop .unauthorized
  else match request.body with
  | none => channel.stop .invalidArgument
  | some message =>
      if !net.contains interface message.method then handleUnclaimed transport message channel
      else if !net.permitted channel message.method then channel.claim.stop .unauthorized
      else dispatch net transport interface message channel.claim

end ProtocolRpc

/-- The handshake passes on a non-version opener and is otherwise silent. -/
def ProtocolElectrumVersion.handleUnclaimed (_ : Transport) (_ : Message Params)
    (channel : Channel Credential) : Turn Credential :=
  if channel.shaking then { channel with shaking := false }.defer else channel.defer

def ProtocolElectrum.handleUnclaimed (_ : Transport) (_ : Message Params)
    (channel : Channel Credential) : Turn Credential :=
  channel.respond (.error .methodNotFound)

def ProtocolSparrow.handleUnclaimed (transport : Transport) (message : Message Params)
    (channel : Channel Credential) : Turn Credential :=
  if !net.contains .sparrow message.method
    then ProtocolElectrum.handleUnclaimed transport message channel
  else dispatch net transport .sparrow message channel

namespace ProtocolBitcoindDispatch

variable (interface : Interface)

def handleReceivePost (post : Request Params) (channel : Channel Credential) :
    Turn Credential :=
  if channel.stopped then channel.defer
  else if channel.claimed then channel.defer
  else match post.allowedHost && post.allowedOrigin, post.body with
  | true, some message =>
      if !net.contains interface message.method then channel.defer
      else if !net.permitted channel message.method then channel.claim.respond .forbidden
      else dispatch net .post interface message channel.claim
  | _, _ => channel.defer

def dispatchWebsocket (transport : Transport) (request : Request Params)
    (channel : Channel Credential) : Turn Credential :=
  if channel.stopped then channel.defer
  else if channel.claimed then channel.defer
  else match channel.authorized, request.body with
  | true, some message =>
      if !net.contains interface message.method then channel.defer
      else if !net.permitted channel message.method then channel.claim.stop .unauthorized
      else dispatch net transport interface message channel.claim
  | _, _ => channel.defer

end ProtocolBitcoindDispatch

namespace ProtocolBitcoind

def handleReceiveGet (channel : Channel Credential) : Turn Credential :=
  if channel.stopped then channel.defer
  else if channel.claimed then channel.defer
  else channel.respond .methodNotAllowed

def handleReceivePost (post : Request Params) (channel : Channel Credential) :
    Turn Credential :=
  if channel.stopped then channel.defer
  else if channel.claimed then channel.defer
  else if !post.allowedHost then channel.respond .badHost
  else if !post.allowedOrigin then channel.respond .forbidden
  else match post.body with
  | none => channel.respond .badRequest
  | some message =>
      if !net.permitted channel message.method then channel.respond .forbidden
      else sendError .post message .methodNotFound channel

def dispatchWebsocket (transport : Transport) (request : Request Params)
    (channel : Channel Credential) : Turn Credential :=
  if channel.stopped then channel.defer
  else if channel.claimed then channel.defer
  else if !channel.authorized then channel.stop .unauthorized
  else match request.body with
  | none => channel.stop .invalidArgument
  | some message =>
      if !net.permitted channel message.method then channel.stop .unauthorized
      else sendError transport message .methodNotFound channel

end ProtocolBitcoind

namespace ProtocolBtcd

def handleReceivePost (post : Request Params) (channel : Channel Credential) :
    Turn Credential :=
  if channel.stopped then channel.defer
  else match post.allowedHost && post.allowedOrigin, post.body with
  | true, some message =>
      if message.method = authenticate then channel.defer
      else if !net.contains .btcd message.method then channel.defer
      else if !net.permitted channel message.method
        then sendError .post message .invalidParams channel.claim
      else dispatch net .post .btcd message channel.claim
  | _, _ => channel.defer

def dispatchWebsocket (transport : Transport) (request : Request Params)
    (channel : Channel Credential) : Turn Credential :=
  if channel.stopped then channel.defer
  else match request.body with
  | none => channel.defer
  | some message =>
      if decide (message.method = authenticate) = channel.authorized
        then sendError transport message .unauthorized channel.claim
      else if !net.contains .btcd message.method then channel.defer
      else if message.method ≠ authenticate ∧ !net.permitted channel message.method
        then sendError transport message .invalidParams channel.claim
      else dispatch net transport .btcd message channel.claim

end ProtocolBtcd

namespace ProtocolBitcoindRest

/-- The target faults that are bad requests; any other is not found. -/
def malformed : Code → Bool
  | .invalidHash | .invalidNumber | .missingHash | .missingHeight | .missingTarget => true
  | _ => false

def handleReceiveGet (get : Request Params) (channel : Channel Credential) :
    Turn Credential :=
  if channel.stopped then channel.defer
  else
    let channel := channel.claim
    if !get.allowedHost then channel.respond .badHost
    else if !get.allowedOrigin then channel.respond .forbidden
    else match net.bitcoindTarget get.target with
    | .error fault => channel.respond (if malformed fault then .badRequest else .notFound)
    | .ok model =>
        match net.bitcoindQuery model get.target with
        | none => channel.respond .badRequest
        | some model =>
            if !net.permitted channel model.method then channel.respond .forbidden
            else match net.notify .rest model with
            | some fault =>
                channel.respond (if fault = .missingParameter then .badRequest else .notFound)
            | none => invoke net .get .rest model channel

end ProtocolBitcoindRest

inductive Protocol where
  | electrumVersion
  | electrum
  | sparrow
  | bitcoindRest
  | bitcoindDispatch (group : Subgroup)
  | btcd
  | bitcoind
  deriving DecidableEq

/-- The turn of an attached protocol.  A transport it has not subscribed to passes
    it by. -/
def Protocol.receive (transport : Transport) (request : Request Params) :
    Protocol → Channel Credential → Turn Credential
  | .electrumVersion, channel =>
      match transport with
      | .post => ProtocolRpc.handleReceivePost net .electrumHandshake
          ProtocolElectrumVersion.handleUnclaimed request channel
      | .get => channel.defer
      | _ => ProtocolRpc.dispatchWebsocket net .electrumHandshake
          ProtocolElectrumVersion.handleUnclaimed transport request channel
  | .electrum, channel =>
      match transport with
      | .post => ProtocolRpc.handleReceivePost net .electrum
          ProtocolElectrum.handleUnclaimed request channel
      | .get => channel.defer
      | _ => ProtocolRpc.dispatchWebsocket net .electrum
          ProtocolElectrum.handleUnclaimed transport request channel
  | .sparrow, channel =>
      match transport with
      | .post => ProtocolRpc.handleReceivePost net .electrum
          (ProtocolSparrow.handleUnclaimed net) request channel
      | .get => channel.defer
      | _ => ProtocolRpc.dispatchWebsocket net .electrum
          (ProtocolSparrow.handleUnclaimed net) transport request channel
  | .bitcoindRest, channel =>
      match transport with
      | .get => ProtocolBitcoindRest.handleReceiveGet net request channel
      | _ => channel.defer
  | .bitcoindDispatch group, channel =>
      match transport with
      | .post => ProtocolBitcoindDispatch.handleReceivePost net (.subgroup group) request channel
      | .get => channel.defer
      | _ => ProtocolBitcoindDispatch.dispatchWebsocket net (.subgroup group) transport request
          channel
  | .btcd, channel =>
      match transport with
      | .post => ProtocolBtcd.handleReceivePost net request channel
      | .get => channel.defer
      | _ => ProtocolBtcd.dispatchWebsocket net transport request channel
  | .bitcoind, channel =>
      match transport with
      | .post => ProtocolBitcoind.handleReceivePost net request channel
      | .get => ProtocolBitcoind.handleReceiveGet channel
      | _ => ProtocolBitcoind.dispatchWebsocket net transport request channel

inductive Session where
  | electrum
  | sparrow
  | bitcoind
  | btcd
  deriving DecidableEq

def subgroups : List Subgroup :=
  [.blockchain, .control, .mining, .network, .notifications, .test, .transaction, .utility,
    .wallet]

/-- The protocols of a session in attachment order.  A handshake session attaches
    its service once the handshake has passed. -/
def Session.protocols (shaken : Bool) : Session → List Protocol
  | .electrum => .electrumVersion :: if shaken then [.electrum] else []
  | .sparrow => .electrumVersion :: if shaken then [.sparrow] else []
  | .bitcoind => .bitcoindRest :: subgroups.map .bitcoindDispatch ++ [.bitcoind]
  | .btcd => .btcd :: subgroups.map .bitcoindDispatch ++ [.bitcoind]

/-- One protocol's turn, with the channel it saw. -/
structure Record (Credential : Type) where
  protocol : Protocol
  channel : Channel Credential
  effects : List Effect

/-- The protocols take their turns in order. -/
def serve (transport : Transport) (request : Request Params) :
    List Protocol → Channel Credential → Channel Credential × List (Record Credential)
  | [], channel => (channel, [])
  | protocol :: rest, channel =>
      let (next, effects) := protocol.receive net transport request channel
      let (last, records) := serve transport request rest next
      (last, ⟨protocol, channel, effects⟩ :: records)

end LibbitcoinServer.Dispatch
