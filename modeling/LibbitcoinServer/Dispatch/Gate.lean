import LibbitcoinServer.Dispatch.Protocols

/-! # The authorization gate

A handler runs only for a permitted method and, on a full duplex transport, on an
authorized channel; `authenticate` of btcd is the exception.  Every protocol keeps
this on its own account except the sparrow miss handler, which dispatches without
asking for permission, and btcd, whose `authenticate` is also reached over a tcp
downgrade.
-/

namespace LibbitcoinServer.Dispatch

variable {Params Credential : Type} (net : Network Params Credential)

/-- An invocation that the gate allows. -/
def Gated (transport : Transport) (channel : Channel Credential) (interface : Interface)
    (method : String) : Prop :=
  (net.permitted channel method ∧ (transport.duplex → channel.authorized)) ∨
    (interface = .btcd ∧ method = authenticate ∧ transport = .websocket ∧ ¬channel.authorized)

/-- The invocations of one turn. -/
def Invokes (turn : Turn Credential) (interface : Interface) (method : String) : Prop :=
  .invoke interface method ∈ turn.2

variable {net} {transport : Transport} {interface called : Interface} {method : String}
  {message : Message Params} {channel : Channel Credential}

@[simp] theorem permitted_claim :
    net.permitted channel.claim method = net.permitted channel method := rfl

@[simp] theorem invokes_defer : ¬Invokes channel.defer interface method := by
  simp [Invokes, Channel.defer]

@[simp] theorem invokes_respond {response : Response} :
    ¬Invokes (channel.respond response) interface method := by
  simp [Invokes, Channel.respond]

@[simp] theorem invokes_stop {code : Code} :
    ¬Invokes (channel.stop code) interface method := by
  simp [Invokes, Channel.stop]

@[simp] theorem invokes_sendRpc {response : Response} {closeReason : Option Code} :
    ¬Invokes (sendRpc transport message response closeReason channel) interface method := by
  unfold sendRpc
  cases closeReason <;> split <;> simp [Invokes, Channel.respond, Channel.defer, Channel.stop]

@[simp] theorem invokes_sendError {code : Code} :
    ¬Invokes (sendError transport message code channel) interface method :=
  invokes_sendRpc

theorem invokes_invoke :
    Invokes (invoke net transport called message channel) interface method ↔
      interface = called ∧ method = message.method := by
  have quiet : ¬Invokes (if called = .btcd ∧ message.method = authenticate
      then handleAuthenticate net transport message channel else channel.defer)
      interface method := by
    split
    · unfold handleAuthenticate
      split <;> simp
    · simp
  simp only [Invokes] at quiet
  simp [Invokes, invoke, quiet]

/-- A dispatch invokes the handler of its own method, unless the request misfits. -/
theorem invokes_dispatch :
    Invokes (dispatch net transport called message channel) interface method ↔
      net.notify called message = none ∧ interface = called ∧ method = message.method := by
  unfold dispatch
  cases net.notify called message <;> simp [invokes_invoke]

/-- A request that the transport of an rpc protocol admits for dispatch. -/
structure Admitted (transport : Transport) (request : Request Params)
    (channel : Channel Credential) (message : Message Params) : Prop where
  body : request.body = some message
  running : channel.stopped = false
  unclaimed : channel.claimed = false
  rpc : transport ≠ .get
  trusted : transport = .post → request.allowedHost ∧ request.allowedOrigin
  known : transport.duplex → channel.authorized

/-- The turns in which a handler passes the gate by: a method of the sparrow
    interface alone that the credential does not permit, and an `authenticate` over
    a tcp downgrade. -/
def Slips (net : Network Params Credential) (transport : Transport) (request : Request Params)
    (channel : Channel Credential) : Protocol → Prop
  | .sparrow => ∃ message, Admitted transport request channel message ∧
      ¬net.contains .electrum message.method ∧ net.contains .sparrow message.method ∧
      net.notify .sparrow message = none ∧ ¬net.permitted channel message.method
  | .btcd => ∃ message, request.body = some message ∧ transport = .downgraded ∧
      channel.stopped = false ∧ channel.authorized = false ∧ message.method = authenticate ∧
      net.contains .btcd authenticate ∧ net.notify .btcd message = none
  | _ => False

variable {request : Request Params}
  {unclaimed : Transport → Message Params → Channel Credential → Turn Credential}

/-- What an rpc protocol invokes is permitted and of its own interface, or is up to
    its miss handler. -/
def RpcInvokes (net : Network Params Credential) (called : Interface)
    (unclaimed : Transport → Message Params → Channel Credential → Turn Credential)
    (transport : Transport) (request : Request Params) (channel : Channel Credential)
    (interface : Interface) (method : String) : Prop :=
  ∃ message, Admitted transport request channel message ∧
    ((net.contains called message.method ∧ net.permitted channel message.method ∧
        net.notify called message = none ∧ interface = called ∧ method = message.method) ∨
      (¬net.contains called message.method ∧
        Invokes (unclaimed transport message channel) interface method))

/-- What is left of a turn once its message is admitted, with a refusal that invokes
    nothing. -/
theorem rpcInvokes_admitted {message : Message Params}
    (admitted : Admitted transport request channel message) {refusal : Turn Credential}
    (quiet : ¬Invokes refusal interface method)
    (made : Invokes (if net.contains called message.method = false then
        unclaimed transport message channel
      else if net.permitted channel message.method = false then refusal
      else dispatch net transport called message channel.claim) interface method) :
    RpcInvokes net called unclaimed transport request channel interface method := by
  split_ifs at made with outside denied
  · exact ⟨message, admitted, .inr ⟨by simpa using outside, made⟩⟩
  · exact absurd made quiet
  · obtain ⟨fits, same, named⟩ := invokes_dispatch.mp made
    exact ⟨message, admitted,
      .inl ⟨by simpa using outside, by simpa using denied, fits, same, named⟩⟩

theorem invokes_handleReceivePost :
    Invokes (ProtocolRpc.handleReceivePost net called unclaimed request channel)
        interface method ↔
      RpcInvokes net called unclaimed .post request channel interface method := by
  unfold ProtocolRpc.handleReceivePost
  constructor
  · intro made
    split_ifs at made with stopped claimed host origin <;> try simp at made
    split at made
    · simp at made
    · rename_i message body
      have admitted : Admitted .post request channel message :=
        ⟨body, by simpa using stopped, by simpa using claimed, by simp,
          fun _ => ⟨by simpa using host, by simpa using origin⟩, by simp [Transport.duplex]⟩
      exact rpcInvokes_admitted admitted (by simp) made
  · rintro ⟨message, admitted, inside | outside⟩
    · obtain ⟨contained, permitted, fits, same, named⟩ := inside
      obtain ⟨host, origin⟩ := admitted.trusted rfl
      simp [admitted.running, admitted.unclaimed, admitted.body, host, origin, contained,
        permitted, invokes_dispatch, fits, same, named]
    · obtain ⟨host, origin⟩ := admitted.trusted rfl
      simp [admitted.running, admitted.unclaimed, admitted.body, host, origin, outside.1,
        outside.2]

theorem invokes_dispatchWebsocket (duplex : transport.duplex) :
    Invokes (ProtocolRpc.dispatchWebsocket net called unclaimed transport request channel)
        interface method ↔
      RpcInvokes net called unclaimed transport request channel interface method := by
  unfold ProtocolRpc.dispatchWebsocket
  constructor
  · intro made
    split_ifs at made with stopped claimed known <;> try simp at made
    split at made
    · simp at made
    · rename_i message body
      have admitted : Admitted transport request channel message :=
        ⟨body, by simpa using stopped, by simpa using claimed,
          by rintro rfl; simp [Transport.duplex] at duplex,
          by rintro rfl; simp [Transport.duplex] at duplex, fun _ => by simpa using known⟩
      exact rpcInvokes_admitted admitted (by simp) made
  · rintro ⟨message, admitted, inside | outside⟩
    · obtain ⟨contained, permitted, fits, same, named⟩ := inside
      simp [admitted.running, admitted.unclaimed, admitted.body, admitted.known duplex, contained,
        permitted, invokes_dispatch, fits, same, named]
    · simp [admitted.running, admitted.unclaimed, admitted.body, admitted.known duplex,
        outside.1, outside.2]

theorem gated_of_permitted (permitted : net.permitted channel method)
    (known : transport.duplex → channel.authorized) :
    Gated net transport channel interface method :=
  .inl ⟨permitted, known⟩

/-- An rpc protocol whose miss handler invokes nothing is gated. -/
theorem RpcInvokes.gated
    (made : RpcInvokes net called unclaimed transport request channel interface method)
    (quiet : ∀ message, ¬Invokes (unclaimed transport message channel) interface method) :
    Gated net transport channel interface method := by
  obtain ⟨message, admitted, ⟨-, permitted, -, -, rfl⟩ | ⟨-, missed⟩⟩ := made
  · exact gated_of_permitted permitted admitted.known
  · exact absurd missed (quiet message)

theorem electrumVersion_quiet (message : Message Params) :
    ¬Invokes (ProtocolElectrumVersion.handleUnclaimed transport message channel)
      interface method := by
  unfold ProtocolElectrumVersion.handleUnclaimed
  split <;> simp

theorem electrum_quiet (message : Message Params) :
    ¬Invokes (ProtocolElectrum.handleUnclaimed transport message channel) interface method :=
  invokes_respond

theorem invokes_sparrowUnclaimed :
    Invokes (ProtocolSparrow.handleUnclaimed net transport message channel) interface method ↔
      net.contains .sparrow message.method ∧ net.notify .sparrow message = none ∧
        interface = .sparrow ∧ method = message.method := by
  unfold ProtocolSparrow.handleUnclaimed
  split
  · rename_i outside
    simp_all [electrum_quiet message]
  · rename_i inside
    simp_all [invokes_dispatch]

/-- Sparrow is gated exactly where its own methods are permitted. -/
theorem sparrow_gated_iff :
    (∀ interface method, RpcInvokes net .electrum (ProtocolSparrow.handleUnclaimed net) transport
        request channel interface method → Gated net transport channel interface method) ↔
      ¬Slips net transport request channel .sparrow := by
  constructor
  · rintro gated ⟨message, admitted, outside, inside, fits, denied⟩
    have made : RpcInvokes net .electrum (ProtocolSparrow.handleUnclaimed net) transport request
        channel .sparrow message.method :=
      ⟨message, admitted, .inr ⟨outside, invokes_sparrowUnclaimed.mpr ⟨inside, fits, rfl, rfl⟩⟩⟩
    rcases gated _ _ made with ⟨permitted, -⟩ | ⟨wrong, -⟩
    · exact denied permitted
    · exact absurd wrong (by decide)
  · intro kept interface method made
    obtain ⟨message, admitted, ⟨-, permitted, -, -, rfl⟩ | ⟨outside, missed⟩⟩ := made
    · exact gated_of_permitted permitted admitted.known
    · obtain ⟨inside, fits, -, rfl⟩ := invokes_sparrowUnclaimed.mp missed
      have permitted : net.permitted channel message.method := by
        by_contra denied
        exact kept ⟨message, admitted, outside, inside, fits, denied⟩
      exact gated_of_permitted permitted admitted.known

theorem bitcoindDispatch_gated {group : Subgroup}
    (made : Invokes ((Protocol.bitcoindDispatch group).receive net transport request channel)
      interface method) :
    Gated net transport channel interface method := by
  cases transport with
  | get => simp [Protocol.receive] at made
  | post =>
      simp only [Protocol.receive, ProtocolBitcoindDispatch.handleReceivePost] at made
      split_ifs at made with stopped claimed <;> try simp at made
      split at made <;> try simp at made
      split_ifs at made with outside denied <;> try simp at made
      obtain ⟨-, -, rfl⟩ := invokes_dispatch.mp made
      exact gated_of_permitted (by simpa using denied) (by simp [Transport.duplex])
  | websocket | downgraded =>
      simp only [Protocol.receive, ProtocolBitcoindDispatch.dispatchWebsocket] at made
      split_ifs at made with stopped claimed <;> try simp at made
      split at made <;> try simp at made
      rename_i known body
      split_ifs at made with outside denied <;> try simp at made
      obtain ⟨-, -, rfl⟩ := invokes_dispatch.mp made
      exact gated_of_permitted (by simpa using denied) fun _ => known

theorem bitcoind_quiet :
    ¬Invokes (Protocol.bitcoind.receive net transport request channel) interface method := by
  intro made
  cases transport with
  | get =>
      simp only [Protocol.receive, ProtocolBitcoind.handleReceiveGet] at made
      split_ifs at made <;> simp at made
  | post =>
      simp only [Protocol.receive, ProtocolBitcoind.handleReceivePost] at made
      split_ifs at made <;> try simp at made
      split at made
      · simp at made
      · split_ifs at made <;> simp at made
  | websocket | downgraded =>
      simp only [Protocol.receive, ProtocolBitcoind.dispatchWebsocket] at made
      split_ifs at made <;> try simp at made
      split at made
      · simp at made
      · split_ifs at made <;> simp at made

theorem bitcoindRest_gated
    (made : Invokes (Protocol.bitcoindRest.receive net transport request channel)
      interface method) :
    Gated net transport channel interface method := by
  cases transport with
  | post | websocket | downgraded => simp [Protocol.receive] at made
  | get =>
      simp only [Protocol.receive, ProtocolBitcoindRest.handleReceiveGet] at made
      split_ifs at made <;> try simp at made
      split at made
      · simp at made
      · split at made
        · simp at made
        · split_ifs at made with denied <;> try simp at made
          split at made
          · simp at made
          · obtain ⟨-, rfl⟩ := invokes_invoke.mp made
            exact gated_of_permitted (by simpa using denied) (by simp [Transport.duplex])

theorem btcdPost_gated
    (made : Invokes (ProtocolBtcd.handleReceivePost net request channel) interface method) :
    Gated net .post channel interface method := by
  unfold ProtocolBtcd.handleReceivePost at made
  split_ifs at made <;> try simp at made
  split at made <;> try simp at made
  split_ifs at made with login outside denied <;> try simp at made
  obtain ⟨-, -, rfl⟩ := invokes_dispatch.mp made
  exact gated_of_permitted (by simpa using denied) (by simp [Transport.duplex])

/-- A frame reaches a btcd handler to log in, or on an authorized channel. -/
theorem invokes_btcdWebsocket
    (made : Invokes (ProtocolBtcd.dispatchWebsocket net transport request channel)
      interface method) :
    interface = .btcd ∧ ∃ message, request.body = some message ∧ method = message.method ∧
      channel.stopped = false ∧ net.contains .btcd method ∧ net.notify .btcd message = none ∧
      ((method = authenticate ∧ channel.authorized = false) ∨
        (channel.authorized ∧ net.permitted channel method)) := by
  unfold ProtocolBtcd.dispatchWebsocket at made
  split_ifs at made with stopped <;> try simp at made
  split at made
  · simp at made
  · rename_i message body
    split_ifs at made with turned outside denied <;> try simp at made
    obtain ⟨fits, same, rfl⟩ := invokes_dispatch.mp made
    refine ⟨same, message, body, rfl, by simpa using stopped, by simpa using outside, fits, ?_⟩
    cases known : channel.authorized with
    | false =>
        rw [known] at turned
        exact .inl ⟨by simpa using turned, rfl⟩
    | true =>
        rw [known] at turned
        have other : message.method ≠ authenticate := by simpa using turned
        exact .inr ⟨rfl, by simpa [other] using denied⟩

theorem btcd_gated_iff :
    (∀ interface method, Invokes (Protocol.btcd.receive net transport request channel)
        interface method → Gated net transport channel interface method) ↔
      ¬Slips net transport request channel .btcd := by
  constructor
  · rintro gated ⟨message, body, rfl, running, unknown, login, inside, fits⟩
    have made : Invokes (Protocol.btcd.receive net .downgraded request channel) .btcd
        authenticate := by
      simp only [Protocol.receive, ProtocolBtcd.dispatchWebsocket]
      simp [body, running, unknown, login, inside, invokes_dispatch, fits]
    rcases gated _ _ made with ⟨-, known⟩ | ⟨-, -, wrong, -⟩
    · exact absurd (known rfl) (by simp [unknown])
    · cases wrong
  · intro kept interface method made
    cases transport with
    | get => simp [Protocol.receive] at made
    | post => exact btcdPost_gated made
    | websocket =>
        obtain ⟨same, message, -, -, -, -, -, ⟨login, unknown⟩ | ⟨known, permitted⟩⟩ :=
          invokes_btcdWebsocket made
        · exact .inr ⟨same, login, rfl, by simp [unknown]⟩
        · exact gated_of_permitted permitted fun _ => known
    | downgraded =>
        obtain ⟨same, message, body, rfl, running, inside, fits,
          ⟨login, unknown⟩ | ⟨known, permitted⟩⟩ := invokes_btcdWebsocket made
        · exact absurd ⟨message, body, rfl, running, unknown, login, login ▸ inside, fits⟩ kept
        · exact gated_of_permitted permitted fun _ => known

/-- One turn is gated exactly where the protocol does not slip. -/
theorem receive_gated_iff (protocol : Protocol) :
    (∀ interface method, Invokes (protocol.receive net transport request channel)
        interface method → Gated net transport channel interface method) ↔
      ¬Slips net transport request channel protocol := by
  cases protocol with
  | electrumVersion =>
      refine ⟨fun _ slip => slip, fun _ interface method made => ?_⟩
      cases transport with
      | get => simp [Protocol.receive] at made
      | post => exact (invokes_handleReceivePost.mp made).gated electrumVersion_quiet
      | websocket | downgraded =>
          exact ((invokes_dispatchWebsocket rfl).mp made).gated electrumVersion_quiet
  | electrum =>
      refine ⟨fun _ slip => slip, fun _ interface method made => ?_⟩
      cases transport with
      | get => simp [Protocol.receive] at made
      | post => exact (invokes_handleReceivePost.mp made).gated electrum_quiet
      | websocket | downgraded =>
          exact ((invokes_dispatchWebsocket rfl).mp made).gated electrum_quiet
  | sparrow =>
      cases transport with
      | get =>
          refine ⟨fun _ slip => ?_, fun _ interface method made => ?_⟩
          · obtain ⟨message, admitted, -⟩ := slip
            exact admitted.rpc rfl
          · simp [Protocol.receive] at made
      | post =>
          rw [← sparrow_gated_iff]
          simp only [Protocol.receive, invokes_handleReceivePost]
      | websocket | downgraded =>
          rw [← sparrow_gated_iff]
          exact forall₂_congr fun _ _ => imp_congr_left (invokes_dispatchWebsocket rfl)
  | bitcoindRest => exact ⟨fun _ slip => slip, fun _ _ _ made => bitcoindRest_gated made⟩
  | bitcoindDispatch group =>
      exact ⟨fun _ slip => slip, fun _ _ _ made => bitcoindDispatch_gated made⟩
  | btcd => exact btcd_gated_iff
  | bitcoind =>
      exact ⟨fun _ slip => slip, fun _ _ _ made => absurd made bitcoind_quiet⟩

/-- A request of a channel.  The network may settle its credential on arrival, as
    for a basic authorization header, and the handshake has passed or has not. -/
structure Arrival (Params Credential : Type) where
  transport : Transport
  request : Request Params
  admission : Option (Bool × Credential)
  shaken : Bool

/-- The latch is cleared for each request. -/
def Arrival.enter (arrival : Arrival Params Credential) (channel : Channel Credential) :
    Channel Credential :=
  match arrival.admission with
  | none => { channel with claimed := false }
  | some (authorized, credential) => { channel with claimed := false, authorized, credential }

/-- Every protocol's turn over the requests of a channel. -/
def turns (net : Network Params Credential) (session : Session) :
    List (Arrival Params Credential) → Channel Credential →
      List (Arrival Params Credential × Record Credential)
  | [], _ => []
  | arrival :: rest, channel =>
      let (next, records) := serve net arrival.transport arrival.request
        (session.protocols arrival.shaken) (arrival.enter channel)
      records.map (arrival, ·) ++ turns net session rest next

theorem serve_effects {protocols : List Protocol} {record : Record Credential}
    (member : record ∈ (serve net transport request protocols channel).2) :
    record.effects = (record.protocol.receive net transport request record.channel).2 := by
  induction protocols generalizing channel with
  | nil => simp [serve] at member
  | cons protocol rest ih =>
      rcases List.mem_cons.mp member with rfl | later
      · rfl
      · exact ih later

theorem turns_effects {session : Session} {arrivals : List (Arrival Params Credential)}
    {turn : Arrival Params Credential × Record Credential}
    (member : turn ∈ turns net session arrivals channel) :
    turn.2.effects = (turn.2.protocol.receive net turn.1.transport turn.1.request
      turn.2.channel).2 := by
  induction arrivals generalizing channel with
  | nil => simp [turns] at member
  | cons arrival rest ih =>
      rcases List.mem_append.mp member with now | later
      · obtain ⟨record, served, rfl⟩ := List.mem_map.mp now
        exact serve_effects served
      · exact ih later

/-- Over any requests of a channel, every invocation is gated exactly where no
    turn slips. -/
theorem turns_gated_iff (net : Network Params Credential) (session : Session)
    (arrivals : List (Arrival Params Credential)) (channel : Channel Credential) :
    (∀ turn ∈ turns net session arrivals channel, ∀ interface method,
        .invoke interface method ∈ turn.2.effects →
          Gated net turn.1.transport turn.2.channel interface method) ↔
      ∀ turn ∈ turns net session arrivals channel,
        ¬Slips net turn.1.transport turn.1.request turn.2.channel turn.2.protocol := by
  refine forall₂_congr fun turn member => ?_
  rw [turns_effects member]
  exact receive_gated_iff turn.2.protocol

def electrumMethods : List String :=
  ["blockchain.numblocks.subscribe", "blockchain.block.get_chunk", "blockchain.block.get_header",
    "blockchain.block.header", "blockchain.block.headers", "blockchain.headers.subscribe",
    "blockchain.estimatefee", "blockchain.relayfee", "blockchain.utxo.get_address",
    "blockchain.outpoint.get_status", "blockchain.outpoint.subscribe",
    "blockchain.outpoint.unsubscribe", "blockchain.address.get_balance",
    "blockchain.address.get_history", "blockchain.address.get_mempool",
    "blockchain.address.listunspent", "blockchain.address.subscribe",
    "blockchain.scripthash.get_balance", "blockchain.scripthash.get_history",
    "blockchain.scripthash.get_mempool", "blockchain.scripthash.listunspent",
    "blockchain.scripthash.subscribe", "blockchain.scripthash.unsubscribe",
    "blockchain.scriptpubkey.get_balance", "blockchain.scriptpubkey.get_history",
    "blockchain.scriptpubkey.get_mempool", "blockchain.scriptpubkey.listunspent",
    "blockchain.scriptpubkey.subscribe", "blockchain.scriptpubkey.unsubscribe",
    "blockchain.transaction.broadcast", "blockchain.transaction.broadcast_package",
    "blockchain.transaction.get", "blockchain.transaction.get_merkle",
    "blockchain.transaction.id_from_pos", "blockchain.transaction.testmempoolaccept",
    "server.add_peer", "server.banner", "server.donation_address", "server.features",
    "server.peers.subscribe", "server.ping", "mempool.get_fee_histogram", "mempool.get_info",
    "mempool.recent"]

def sparrowMethods : List String :=
  ["blockchain.block.stats", "blockchain.silentpayments.subscribe",
    "blockchain.silentpayments.unsubscribe"]

/-- The sparrow service, with a credential as the list of the methods it permits. -/
def sparrowNetwork : Network Unit (List String) where
  contains
    | .electrumHandshake, method => method = "server.version"
    | .electrum, method => method ∈ electrumMethods
    | .sparrow, method => method ∈ sparrowMethods
    | _, _ => false
  notify _ _ := none
  permits credential method := method ∈ credential
  login _ := none
  bitcoindTarget _ := .error .missingTarget
  bitcoindQuery message _ := message

/-- A credential for `server.ping` alone asks for a scan of silent payments. -/
def silentScan : Arrival Unit (List String) where
  transport := .post
  request := ⟨true, true, some ⟨.v2, some (.number 1), "blockchain.silentpayments.subscribe", (),
    false⟩, "/"⟩
  admission := some (true, ["server.ping"])
  shaken := true

theorem turns_silentScan_ungated :
    ¬∀ (session : Session) (arrivals : List (Arrival Unit (List String)))
      (channel : Channel (List String)),
      ∀ turn ∈ turns sparrowNetwork session arrivals channel, ∀ interface method,
        .invoke interface method ∈ turn.2.effects →
          Gated sparrowNetwork turn.1.transport turn.2.channel interface method := by
  intro gated
  have turn := gated .sparrow [silentScan] ⟨false, false, false, [], true⟩
    (silentScan, ⟨.sparrow, ⟨false, false, true, ["server.ping"], false⟩,
      [.invoke .sparrow "blockchain.silentpayments.subscribe"]⟩)
    (by simp [turns, serve, Session.protocols, Protocol.receive, silentScan, Arrival.enter,
      ProtocolRpc.handleReceivePost, ProtocolElectrumVersion.handleUnclaimed, Channel.defer,
      ProtocolSparrow.handleUnclaimed, sparrowNetwork, electrumMethods, sparrowMethods,
      dispatch, invoke]) .sparrow "blockchain.silentpayments.subscribe" (by simp)
  rcases turn with ⟨permitted, -⟩ | ⟨wrong, -⟩
  · simp [Network.permitted, sparrowNetwork] at permitted
  · cases wrong

end LibbitcoinServer.Dispatch
