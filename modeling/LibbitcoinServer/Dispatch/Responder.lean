import LibbitcoinServer.Dispatch.Protocols

/-! # One responder to a request

The protocols of a bitcoind or btcd session share the claimed latch.  Whatever
interfaces define the method, at most one of them acts on a request, and none only
where the channel has stopped or where the answer would be an error to a
notification frame, which is not sent.
-/

namespace LibbitcoinServer.Dispatch

variable {Params Credential : Type} (net : Network Params Credential)

/-- The number of protocols that invoked, responded or stopped. -/
def acting (records : List (Record Credential)) : Nat :=
  records.countP fun record => !record.effects.isEmpty

/-- A method of an authorized channel that no subgroup defines and the credential
    permits, which is left for the terminal to report. -/
def Unserved (channel : Channel Credential) (method : String) : Prop :=
  channel.authorized ∧ net.permitted channel method ∧
    ∀ group, ¬net.contains (.subgroup group) method

/-- A notification frame that is answered by an error, hence by nothing. -/
def Silenced (session : Session) (transport : Transport) (request : Request Params)
    (channel : Channel Credential) : Prop :=
  transport.duplex ∧ ∃ message, request.body = some message ∧ message.notification ∧
    match session with
    | .btcd => (message.method = authenticate ↔ channel.authorized) ∨
        (net.contains .btcd message.method ∧ message.method ≠ authenticate ∧
          ¬net.permitted channel message.method) ∨
        (¬net.contains .btcd message.method ∧ Unserved net channel message.method)
    | _ => Unserved net channel message.method

variable {net} {transport : Transport} {request : Request Params} {channel : Channel Credential}
  {interface : Interface} {message : Message Params} {group : Subgroup}

/-- A protocol that has nothing to do on a channel it finds claimed or stopped. -/
def Latched (channel : Channel Credential) : Prop := channel.claimed ∨ channel.stopped

theorem bitcoindDispatch_latched (latched : Latched channel) :
    (Protocol.bitcoindDispatch group).receive net transport request channel = channel.defer := by
  cases transport <;> rcases latched with claimed | stopped <;>
    simp_all [Protocol.receive, ProtocolBitcoindDispatch.handleReceivePost,
      ProtocolBitcoindDispatch.dispatchWebsocket]

theorem bitcoind_latched (latched : Latched channel) :
    Protocol.bitcoind.receive net transport request channel = channel.defer := by
  cases transport <;> rcases latched with claimed | stopped <;>
    simp_all [Protocol.receive, ProtocolBitcoind.handleReceivePost,
      ProtocolBitcoind.handleReceiveGet, ProtocolBitcoind.dispatchWebsocket]

theorem acting_cons {record : Record Credential} {records : List (Record Credential)} :
    acting (record :: records) = acting records + if record.effects = [] then 0 else 1 := by
  cases effects : record.effects <;> simp [acting, effects]

variable {protocol : Protocol} {rest : List Protocol}

theorem acting_silent (silent : (protocol.receive net transport request channel).2 = []) :
    acting (serve net transport request (protocol :: rest) channel).2 =
      acting (serve net transport request rest
        (protocol.receive net transport request channel).1).2 := by
  simp [serve, acting_cons, silent]

theorem acting_deferred
    (deferred : protocol.receive net transport request channel = channel.defer) :
    acting (serve net transport request (protocol :: rest) channel).2 =
      acting (serve net transport request rest channel).2 := by
  rw [acting_silent (by rw [deferred]; rfl), deferred]
  rfl

theorem acting_acted (acted : (protocol.receive net transport request channel).2 ≠ []) :
    acting (serve net transport request (protocol :: rest) channel).2 =
      acting (serve net transport request rest
        (protocol.receive net transport request channel).1).2 + 1 := by
  simp [serve, acting_cons, acted]

/-- The subgroups and the terminal, which both sessions attach last. -/
def tail (groups : List Subgroup) : List Protocol :=
  groups.map .bitcoindDispatch ++ [.bitcoind]

theorem tail_cons {groups : List Subgroup} :
    tail (group :: groups) = .bitcoindDispatch group :: tail groups := rfl

theorem acting_tail_latched {groups : List Subgroup} (latched : Latched channel) :
    acting (serve net transport request (tail groups) channel).2 = 0 := by
  induction groups with
  | nil => exact acting_deferred (bitcoind_latched latched)
  | cons group rest ih => rw [tail_cons, acting_deferred (bitcoindDispatch_latched latched), ih]

/-- A turn that acts and latches the channel. -/
def Taken (turn : Turn Credential) : Prop := turn.2 ≠ [] ∧ Latched turn.1

/-- Nobody acts after the protocol that took the request. -/
theorem acting_taken {groups : List Subgroup}
    (taken : Taken (protocol.receive net transport request channel)) :
    acting (serve net transport request (protocol :: tail groups) channel).2 = 1 := by
  rw [acting_acted taken.1, acting_tail_latched taken.2]

theorem taken_stop {code : Code} : Taken (channel.stop code) :=
  ⟨by simp [Channel.stop], .inr rfl⟩

theorem taken_respond {response : Response} (claimed : channel.claimed) :
    Taken (channel.respond response) :=
  ⟨by simp [Channel.respond], .inl claimed⟩

theorem claimed_sendRpc {response : Response} {closeReason : Option Code} :
    (sendRpc transport message response closeReason channel).1.claimed = channel.claimed := by
  unfold sendRpc
  cases closeReason <;> split <;> rfl

theorem claimed_invoke :
    (invoke net transport interface message channel).1.claimed = channel.claimed := by
  have kept : (if interface = .btcd ∧ message.method = authenticate
      then handleAuthenticate net transport message channel
      else channel.defer).1.claimed = channel.claimed := by
    split
    · unfold handleAuthenticate
      split <;> exact claimed_sendRpc
    · rfl
  exact kept

theorem taken_invoke (claimed : channel.claimed) :
    Taken (invoke net transport interface message channel) :=
  ⟨by simp [invoke], .inl (by rw [claimed_invoke, claimed])⟩

theorem taken_dispatch (claimed : channel.claimed) :
    Taken (dispatch net transport interface message channel) := by
  unfold dispatch
  split
  · exact taken_stop
  · exact taken_invoke claimed

/-- A subgroup takes a request, or lets it by and has no part in it. -/
theorem bitcoindDispatch_turn (free : ¬Latched channel) :
    Taken ((Protocol.bitcoindDispatch group).receive net transport request channel) ∨
      (Protocol.bitcoindDispatch group).receive net transport request channel = channel.defer ∧
        (transport.duplex → channel.authorized → ∀ message, request.body = some message →
          ¬net.contains (.subgroup group) message.method) := by
  obtain ⟨unclaimed, running⟩ : channel.claimed = false ∧ channel.stopped = false := by
    simpa [Latched] using free
  cases transport with
  | get => exact .inr ⟨rfl, fun duplex => by simp [Transport.duplex] at duplex⟩
  | post =>
      simp only [Protocol.receive, ProtocolBitcoindDispatch.handleReceivePost, unclaimed, running]
      simp only [Bool.false_eq_true, if_false]
      split
      · split_ifs
        · exact .inr ⟨rfl, fun duplex => by simp [Transport.duplex] at duplex⟩
        · exact .inl (taken_respond rfl)
        · exact .inl (taken_dispatch rfl)
      · exact .inr ⟨rfl, fun duplex => by simp [Transport.duplex] at duplex⟩
  | websocket | downgraded =>
      simp only [Protocol.receive, ProtocolBitcoindDispatch.dispatchWebsocket, unclaimed, running]
      simp only [Bool.false_eq_true, if_false]
      split
      · rename_i message known body
        split_ifs with outside
        · refine .inr ⟨rfl, fun _ _ other same => ?_⟩
          obtain rfl : other = message := by simpa [body, eq_comm] using same
          simpa using outside
        · exact .inl taken_stop
        · exact .inl (taken_dispatch rfl)
      · rename_i missing
        refine .inr ⟨rfl, fun _ known message body => ?_⟩
        exact absurd body (missing message known)

/-- A subgroup has no part in a frame whose method it does not define. -/
theorem bitcoindDispatch_skips (channel : Channel Credential) (duplex : transport.duplex)
    (body : request.body = some message)
    (outside : ¬net.contains (.subgroup group) message.method) :
    (Protocol.bitcoindDispatch group).receive net transport request channel = channel.defer := by
  cases transport with
  | get | post => simp [Transport.duplex] at duplex
  | websocket | downgraded =>
      simp only [Protocol.receive, ProtocolBitcoindDispatch.dispatchWebsocket, body]
      split_ifs
      · rfl
      · rfl
      · cases channel.authorized <;> simp [outside]

theorem sendError_silent {code : Code} :
    (sendError transport message code channel).2 = [] ↔
      transport.duplex ∧ message.notification := by
  unfold sendError sendRpc
  cases transport.duplex <;> cases message.notification <;>
    simp [Channel.defer, Channel.respond]

/-- The terminal passes over in silence only a notification frame. -/
theorem bitcoind_silent (free : ¬Latched channel) :
    (Protocol.bitcoind.receive net transport request channel).2 = [] ↔
      transport.duplex ∧ ∃ message, request.body = some message ∧ message.notification ∧
        channel.authorized ∧ net.permitted channel message.method := by
  obtain ⟨unclaimed, running⟩ : channel.claimed = false ∧ channel.stopped = false := by
    simpa [Latched] using free
  cases transport with
  | get =>
      simp [Protocol.receive, ProtocolBitcoind.handleReceiveGet, unclaimed, running,
        Channel.respond, Transport.duplex]
  | post =>
      simp only [Protocol.receive, ProtocolBitcoind.handleReceivePost, unclaimed, running]
      simp only [Bool.false_eq_true, if_false, Transport.duplex, false_and, iff_false]
      split_ifs
      · simp [Channel.respond]
      · simp [Channel.respond]
      · split
        · simp [Channel.respond]
        · split_ifs
          · simp [Channel.respond]
          · simp [sendError_silent, Transport.duplex]
  | websocket | downgraded =>
      simp only [Protocol.receive, ProtocolBitcoind.dispatchWebsocket, unclaimed, running]
      simp only [Bool.false_eq_true, if_false, Transport.duplex, true_and]
      split_ifs with unknown
      · simp_all [Channel.stop]
      · cases body : request.body with
        | none => simp [Channel.stop]
        | some message =>
            dsimp only
            split_ifs with denied
            · simp_all [Channel.stop]
            · simp_all [sendError_silent, Transport.duplex]

/-- One acts, or none where the request is silenced. -/
def Answered (silenced : Prop) (count : Nat) : Prop :=
  (silenced → count = 0) ∧ (¬silenced → count = 1)

theorem answered_tail {groups : List Subgroup} (free : ¬Latched channel) :
    Answered (transport.duplex ∧ ∃ message, request.body = some message ∧ message.notification ∧
        channel.authorized ∧ net.permitted channel message.method ∧
        ∀ group ∈ groups, ¬net.contains (.subgroup group) message.method)
      (acting (serve net transport request (tail groups) channel).2) := by
  induction groups with
  | nil =>
      simp [Answered, tail, serve, bitcoind_silent free, acting]
  | cons group rest ih =>
      rw [tail_cons]
      rcases bitcoindDispatch_turn free with taken | ⟨deferred, outside⟩
      · rw [acting_taken taken]
        refine ⟨fun silenced => ?_, fun _ => rfl⟩
        obtain ⟨duplex, message, body, -, -, -, unserved⟩ := silenced
        have skipped := bitcoindDispatch_skips channel duplex body
          (unserved group List.mem_cons_self)
        exact absurd (congrArg Prod.snd skipped) taken.1
      · rw [acting_deferred deferred]
        refine ⟨fun silenced => ih.1 ?_, fun audible => ih.2 fun silenced => audible ?_⟩
        · obtain ⟨duplex, message, body, quiet, known, permitted, unserved⟩ := silenced
          exact ⟨duplex, message, body, quiet, known, permitted, fun other member =>
            unserved other (List.mem_cons_of_mem _ member)⟩
        · obtain ⟨duplex, message, body, quiet, known, permitted, unserved⟩ := silenced
          refine ⟨duplex, message, body, quiet, known, permitted, fun other member => ?_⟩
          rcases List.mem_cons.mp member with rfl | later
          · exact outside duplex known message body
          · exact unserved other later

theorem mem_subgroups : group ∈ subgroups := by
  cases group <;> decide

theorem answered_subgroups (free : ¬Latched channel) :
    Answered (transport.duplex ∧ ∃ message, request.body = some message ∧ message.notification ∧
        Unserved net channel message.method)
      (acting (serve net transport request (tail subgroups) channel).2) := by
  have answered : Answered _
    (acting (serve net transport request (tail subgroups) channel).2) := answered_tail free
  simpa only [Unserved, mem_subgroups, forall_const] using answered

theorem bitcoindRest_turn (running : channel.stopped = false) :
    Taken (Protocol.bitcoindRest.receive net .get request channel) := by
  simp only [Protocol.receive, ProtocolBitcoindRest.handleReceiveGet, running]
  simp only [Bool.false_eq_true, if_false]
  split_ifs
  · exact taken_respond rfl
  · exact taken_respond rfl
  · split
    · exact taken_respond rfl
    · split
      · exact taken_respond rfl
      · split_ifs
        · exact taken_respond rfl
        · split
          · exact taken_respond rfl
          · exact taken_invoke rfl

theorem answered_bitcoind (free : ¬Latched channel) {shaken : Bool} :
    Answered (Silenced net .bitcoind transport request channel)
      (acting (serve net transport request (Session.bitcoind.protocols shaken) channel).2) := by
  change Answered _
    (acting (serve net transport request (.bitcoindRest :: tail subgroups) channel).2)
  cases transport with
  | get =>
      have running : channel.stopped = false := by
        simpa using (not_or.mp free).2
      rw [acting_taken (bitcoindRest_turn running)]
      exact ⟨fun silenced => absurd silenced.1 (by decide), fun _ => rfl⟩
  | post | websocket | downgraded =>
      rw [acting_deferred rfl]
      exact answered_subgroups free

/-- Btcd answers with an error, or claims a notification frame without a word. -/
theorem answered_sendError {code : Code} {groups : List Subgroup}
    (sent : protocol.receive net transport request channel =
      sendError transport message code channel.claim) :
    Answered (transport.duplex ∧ message.notification)
      (acting (serve net transport request (protocol :: tail groups) channel).2) := by
  have latched : Latched (protocol.receive net transport request channel).1 :=
    .inl (by rw [sent]; exact claimed_sendRpc)
  refine ⟨fun quiet => ?_, fun audible => acting_taken ⟨?_, latched⟩⟩
  · rw [acting_silent (by rw [sent]; exact sendError_silent.mpr quiet),
      acting_tail_latched latched]
  · rw [sent]
    exact fun silent => audible (sendError_silent.mp silent)

theorem Answered.mono {silenced other : Prop} {count : Nat} (answered : Answered silenced count)
    (same : silenced ↔ other) : Answered other count := by
  rwa [← propext same]

theorem btcdPost_turn (running : channel.stopped = false) :
    Taken (Protocol.btcd.receive net .post request channel) ∨
      Protocol.btcd.receive net .post request channel = channel.defer := by
  simp only [Protocol.receive, ProtocolBtcd.handleReceivePost, running]
  simp only [Bool.false_eq_true, if_false]
  split
  · split_ifs
    · exact .inr rfl
    · exact .inr rfl
    · refine .inl ⟨fun silent => ?_, .inl claimed_sendRpc⟩
      exact absurd (sendError_silent.mp silent).1 (by decide)
    · exact .inl (taken_dispatch rfl)
  · exact .inr rfl

/-- The silenced frames of btcd, by the branch that its dispatch takes. -/
theorem answered_btcdFrame (duplex : transport.duplex) (free : ¬Latched channel) :
    Answered (Silenced net .btcd transport request channel)
      (acting (serve net transport request (.btcd :: tail subgroups) channel).2) := by
  have running : channel.stopped = false := by simpa using (not_or.mp free).2
  have frame : Protocol.btcd.receive net transport request channel =
      ProtocolBtcd.dispatchWebsocket net transport request channel := by
    cases transport <;> first | rfl | simp [Transport.duplex] at duplex
  unfold ProtocolBtcd.dispatchWebsocket at frame
  simp only [running, Bool.false_eq_true, if_false] at frame
  cases body : request.body with
  | none =>
      simp only [body] at frame
      rw [acting_deferred frame]
      refine (answered_subgroups free).mono ?_
      simp [Silenced, body]
  | some message =>
      simp only [body] at frame
      split_ifs at frame with turned outside denied
      · have same : message.method = authenticate ↔ channel.authorized := by
          rw [← turned, decide_eq_true_iff]
        refine (answered_sendError frame).mono ?_
        simp [Silenced, body, same]
      all_goals
        have other : ¬(message.method = authenticate ↔ channel.authorized) := fun same =>
          turned (by rw [Bool.eq_iff_iff, decide_eq_true_iff, same])
      · rw [acting_deferred frame]
        refine (answered_subgroups free).mono ?_
        simp_all [Silenced]
      · refine (answered_sendError frame).mono ?_
        simp_all [Silenced]
      · have taken : Taken (Protocol.btcd.receive net transport request channel) := by
          rw [frame]
          exact taken_dispatch rfl
        rw [acting_taken taken]
        refine ⟨fun silenced => absurd silenced ?_, fun _ => rfl⟩
        simp_all [Silenced]

theorem answered_btcd (free : ¬Latched channel) {shaken : Bool} :
    Answered (Silenced net .btcd transport request channel)
      (acting (serve net transport request (Session.btcd.protocols shaken) channel).2) := by
  change Answered _ (acting (serve net transport request (.btcd :: tail subgroups) channel).2)
  cases transport with
  | get =>
      rw [acting_deferred rfl]
      exact (answered_subgroups free).mono (by simp [Silenced, Transport.duplex])
  | post =>
      rcases btcdPost_turn (by simpa using (not_or.mp free).2) with taken | deferred
      · rw [acting_taken taken]
        exact ⟨fun silenced => absurd silenced.1 (by decide), fun _ => rfl⟩
      · rw [acting_deferred deferred]
        exact (answered_subgroups free).mono (by simp [Silenced, Transport.duplex])
  | websocket | downgraded => exact answered_btcdFrame rfl free

/-- No protocol acts on a channel that has stopped. -/
theorem acting_stopped {session : Session} {shaken : Bool}
    (attached : session = .bitcoind ∨ session = .btcd) (stopped : channel.stopped) :
    acting (serve net transport request (session.protocols shaken) channel).2 = 0 := by
  rcases attached with rfl | rfl
  · change acting (serve net transport request (.bitcoindRest :: tail subgroups) channel).2 = 0
    rw [acting_deferred, acting_tail_latched (.inr stopped)]
    cases transport <;> simp [Protocol.receive, ProtocolBitcoindRest.handleReceiveGet, stopped]
  · change acting (serve net transport request (.btcd :: tail subgroups) channel).2 = 0
    rw [acting_deferred, acting_tail_latched (.inr stopped)]
    cases transport <;> simp [Protocol.receive, ProtocolBtcd.handleReceivePost,
      ProtocolBtcd.dispatchWebsocket, stopped]

/-- Exactly one protocol of a bitcoind or btcd session acts on a request, and none
    where the channel has stopped or the request is a silenced notification. -/
theorem acting_serve (net : Network Params Credential) (session : Session)
    (attached : session = .bitcoind ∨ session = .btcd) (shaken : Bool) (transport : Transport)
    (request : Request Params) (channel : Channel Credential) (clear : channel.claimed = false) :
    (channel.stopped ∨ Silenced net session transport request channel →
        acting (serve net transport request (session.protocols shaken) channel).2 = 0) ∧
      (¬channel.stopped → ¬Silenced net session transport request channel →
        acting (serve net transport request (session.protocols shaken) channel).2 = 1) := by
  by_cases stopped : channel.stopped
  · exact ⟨fun _ => acting_stopped attached stopped, fun running => absurd stopped running⟩
  · have free : ¬Latched channel := by simp [Latched, clear, stopped]
    have answered : Answered (Silenced net session transport request channel)
        (acting (serve net transport request (session.protocols shaken) channel).2) := by
      rcases attached with rfl | rfl
      · exact answered_bitcoind free
      · exact answered_btcd free
    exact ⟨fun silenced => answered.1 (silenced.resolve_left stopped), fun _ => answered.2⟩

/-- A bitcoind service that permits everything and defines `getblockcount`. -/
def blockCountNetwork : Network Unit Unit where
  contains interface method :=
    interface = .subgroup .blockchain ∧ method = "getblockcount"
  notify _ _ := none
  permits _ _ := true
  login _ := none
  bitcoindTarget _ := .error .missingTarget
  bitcoindQuery message _ := message

/-- A frame with the given id for the given method. -/
def rpcFrame (id : Option Identity) (method : String) : Request Unit :=
  ⟨true, true, some ⟨.v2, id, method, (), false⟩, "/"⟩

def openChannel : Channel Unit := ⟨false, false, true, (), false⟩

theorem acting_serve_frame :
    acting (serve blockCountNetwork .websocket (rpcFrame none "getblockcount")
      (Session.bitcoind.protocols true) openChannel).2 = 1 :=
  (acting_serve blockCountNetwork .bitcoind (.inl rfl) true .websocket
    (rpcFrame none "getblockcount") openChannel rfl).2 (by decide) (by
      rintro ⟨-, message, body, -, -, -, unserved⟩
      obtain rfl : _ = message := by simpa [rpcFrame] using body
      exact unserved .blockchain (by decide))

/-- A notification of a method that nothing defines is answered by nobody. -/
theorem acting_serve_unknown_notification :
    ¬∀ (session : Session), session = .bitcoind ∨ session = .btcd →
      ∀ (transport : Transport) (request : Request Unit) (channel : Channel Unit),
        channel.claimed = false → channel.stopped = false →
          acting (serve blockCountNetwork transport request (session.protocols true)
            channel).2 = 1 := by
  intro one
  have acted := one .bitcoind (.inl rfl) .websocket (rpcFrame none "nosuchmethod") openChannel
    rfl rfl
  exact absurd acted (by decide)

end LibbitcoinServer.Dispatch
