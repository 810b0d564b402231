import HbbCommon.Transport.ControlPair
import HbbCommon.Transport.Logic.Control

/-!
# The two ends agree

What one end wrote is what the other has read and what is still on its way, so every read takes
the next message whole. An end fails only in its hello, for a reason that is in the setup; two ends
that are ready have one session and each other's keys.
-/

namespace HbbCommon.Transport

open HbbCommon.Base AuthenticatedControlChannel

variable {sessionId : SessionId} {peerKey : FixedBytes 32} {c c' : AuthenticatedControlChannel}
  {e e' src dst : ControlEnd} {message : ParsedMessage}

/-! ## On the way -/

/-- The bytes of messages. -/
def bytesOf (messages : List ParsedMessage) : Bytes :=
  (messages.map ParsedMessage.bytes).flatten

theorem bytesOf_append (messages more : List ParsedMessage) :
    bytesOf (messages ++ more) = bytesOf messages ++ bytesOf more := by
  unfold bytesOf
  rw [List.map_append, List.flatten_append]

theorem bytesOf_cons (message : ParsedMessage) (more : List ParsedMessage) :
    bytesOf (message :: more) = message.bytes ++ bytesOf more := rfl

/-- What `src` wrote, `dst` has read or is to read. -/
def Conveys (src dst : ControlEnd) : Prop :=
  ∃ pending, src.sent = dst.received ++ pending ∧ dst.stream = bytesOf pending

theorem Conveys.arrived (h : Conveys src dst) (messages : List ParsedMessage)
    (hsent : e.sent = src.sent ++ messages) : Conveys e (dst.arrived messages) := by
  obtain ⟨pending, hpending, hstream⟩ := h
  refine ⟨pending ++ messages, ?_, ?_⟩
  · rw [hsent, hpending, List.append_assoc]
    rfl
  · show dst.stream ++ bytesOf messages = _
    rw [hstream, bytesOf_append]

/-- Where there is something to read it starts with the next message. -/
theorem Conveys.next (h : Conveys src dst) (hstream : dst.stream ≠ []) :
    ∃ message pending, src.sent = dst.received ++ message :: pending ∧
      dst.stream = message.bytes ++ bytesOf pending := by
  obtain ⟨pending, hpending, hbytes⟩ := h
  cases pending with
  | nil => exact absurd hbytes hstream
  | cons message pending => exact ⟨message, pending, hpending, hbytes⟩

/-- Where there is nothing to read everything was read. -/
theorem Conveys.received_eq (h : Conveys src dst) (hwritten : ∀ m ∈ src.sent, Written m)
    (hstream : dst.stream = []) : dst.received = src.sent := by
  obtain ⟨pending, hpending, hbytes⟩ := h
  cases pending with
  | nil => rw [hpending, List.append_nil]
  | cons message pending =>
      rw [hstream, bytesOf_cons] at hbytes
      have hmem : message ∈ src.sent := by
        rw [hpending]
        exact List.mem_append_right _ List.mem_cons_self
      exact absurd (List.append_eq_nil_iff.mp hbytes.symm).1 (hwritten message hmem).bytes_ne

/-! ## An end that is ready -/

/-- The channel of an end, with what the end wrote and read. -/
structure Ready (sessionId : SessionId) (peerKey : FixedBytes 32) (c : AuthenticatedControlChannel)
    (e : ControlEnd) : Prop where
  session : c.sessionId = sessionId
  peer : c.peerIdentityKey = peerKey
  sent : SentBelow sessionId c.nextOutgoingSequence e.sent
  last : ∃ message, e.received.getLast? = some message ∧
    message.header.sequenceNumber = c.lastIncomingSequence
  readErrors : e.readErrors = []

/-- A read takes the next message. -/
theorem Ready.read (h : Ready sessionId peerKey c e) {next : Nat}
    (hsrc : SentBelow sessionId next src.sent) (hflight : Conveys src e)
    (hstream : e.stream ≠ []) :
    ∃ message c' e', e.read c = some (c', .ok message, e') ∧ Ready sessionId peerKey c' e' ∧
      Conveys src e' ∧ e'.sent = e.sent ∧ e'.phase = e.phase ∧ e'.pings = e.pings ∧
      c'.nextOutgoingSequence = c.nextOutgoingSequence := by
  obtain ⟨message, pending, hpending, hbytes⟩ := hflight.next hstream
  have hmem : message ∈ src.sent := by
    rw [hpending]
    exact List.mem_append_right _ List.mem_cons_self
  obtain ⟨last, hlast, hsequence⟩ := h.last
  have habove : c.lastIncomingSequence < message.header.sequenceNumber := by
    have hsorted := hsrc.sorted
    rw [hpending] at hsorted
    rw [← hsequence]
    exact (List.pairwise_append.mp hsorted).2.2 last (List.mem_of_getLast? hlast) message
      List.mem_cons_self
  have hread := readControlMessage_written (hsrc.written message hmem)
    ((hsrc.session message hmem).trans h.session.symm) habove (bytesOf pending)
  refine ⟨message, { c with lastIncomingSequence := message.header.sequenceNumber },
    { e with stream := bytesOf pending, received := e.received ++ [message] }, ?_,
    ⟨h.session, h.peer, h.sent, ⟨message, List.getLast?_concat, rfl⟩, h.readErrors⟩, ?_, rfl, rfl,
    rfl, rfl⟩
  · unfold ControlEnd.read
    rw [if_neg hstream, hbytes, hread]
  · exact ⟨pending, by rw [hpending, List.append_assoc]; rfl, rfl⟩

theorem read_empty (hstream : e.stream = []) (c : AuthenticatedControlChannel) :
    e.read c = none := if_pos hstream

/-- What a channel writes is added to what its end wrote. -/
theorem Ready.wrote (h : Ready sessionId peerKey c e) {ping : Option (FixedBytes 8)}
    {result : AuthenticatedControlChannel × Except ControlError ParsedMessage}
    {messages : List ParsedMessage} (htakes : TakesNumber c result.1)
    (hwrote : ∀ message, result.2 = .ok message → Wrote c result.1 message)
    (hresult : e.wrote ping result = (e', messages)) :
    (∃ c' ping', e'.phase = .ready c' ping' ∧ Ready sessionId peerKey c' e') ∧
      e'.sent = e.sent ++ messages ∧ e'.received = e.received ∧ e'.stream = e.stream := by
  obtain ⟨c', result⟩ := result
  have hsession := htakes.sessionId.trans h.session
  have hpeer := htakes.peerIdentityKey.trans h.peer
  have hlast := htakes.lastIncomingSequence ▸ h.last
  cases result with
  | error error =>
      cases hresult
      exact ⟨⟨c', none, rfl, ⟨hsession, hpeer, h.sent.mono htakes.next, hlast, h.readErrors⟩⟩,
        (List.append_nil _).symm, rfl, rfl⟩
  | ok message =>
      have hmessage := hwrote message rfl
      cases hresult
      refine ⟨⟨c', ping, rfl, ⟨hsession, hpeer, ?_, hlast, h.readErrors⟩⟩, rfl, rfl, rfl⟩
      show SentBelow sessionId c'.nextOutgoingSequence (e.sent ++ [message])
      rw [hmessage.next]
      exact h.sent.append hmessage.written (hmessage.sessionId.trans h.session) hmessage.sequence

theorem Conveys.of_same (h : Conveys src e) (hreceived : e'.received = e.received)
    (hstream : e'.stream = e.stream) : Conveys src e' := by
  unfold Conveys
  rw [hreceived, hstream]
  exact h

/-- A call leaves the end ready, and what it wrote is added. -/
theorem Ready.call (h : Ready sessionId peerKey c e) {ping : Option (FixedBytes 8)}
    (hphase : e.phase = .ready c ping) {next : Nat} (hsrc : SentBelow sessionId next src.sent)
    (hflight : Conveys src e) {timestamp : UInt64} {call : ControlCall}
    {messages : List ParsedMessage} (hcall : e.call timestamp call = some (e', messages)) :
    (∃ c' ping', e'.phase = .ready c' ping' ∧ Ready sessionId peerKey c' e') ∧
      e'.sent = e.sent ++ messages ∧ Conveys src e' := by
  have htimestamp : timestamp.toNat < 256 ^ 8 := timestamp.toNat_lt
  unfold ControlEnd.call at hcall
  rw [hphase] at hcall
  cases ping with
  | none =>
      cases call with
      | sendControl messageType flags payload =>
          obtain ⟨htakes, hwrote⟩ := c.sendControl_cases messageType flags.toNat htimestamp payload
          obtain ⟨hready, hsent, hreceived, hstream⟩ :=
            h.wrote htakes hwrote (Option.some.inj hcall)
          exact ⟨hready, hsent, hflight.of_same hreceived hstream⟩
      | ping nonce =>
          obtain ⟨htakes, hwrote⟩ := c.writeNext_cases .ping flagAckRequired htimestamp nonce.val
          obtain ⟨hready, hsent, hreceived, hstream⟩ :=
            h.wrote htakes (fun m hm => (hwrote m hm).1) (Option.some.inj hcall)
          exact ⟨hready, hsent, hflight.of_same hreceived hstream⟩
      | receiveControl =>
          by_cases hstream : e.stream = []
          · simp only [read_empty hstream] at hcall
            cases hcall
          · obtain ⟨m, c', e₁, hread, hr, hflight, hsent, -⟩ := h.read hsrc hflight hstream
            simp only [hread] at hcall
            cases Option.some.inj hcall
            refine ⟨⟨c', none, rfl, ⟨hr.session, hr.peer, hr.sent, hr.last, hr.readErrors⟩⟩, ?_,
              hflight.of_same rfl rfl⟩
            exact hsent.trans (List.append_nil _).symm
      | respondToPing =>
          by_cases hstream : e.stream = []
          · simp only [read_empty hstream] at hcall
            cases hcall
          · obtain ⟨m, c', e₁, hread, hr, hflight, hsent, -⟩ := h.read hsrc hflight hstream
            simp only [hread] at hcall
            obtain ⟨htakes, hwrote⟩ := c'.respondToPing_cases htimestamp m
            obtain ⟨hready, hsent', hreceived, hstream⟩ :=
              hr.wrote htakes hwrote (Option.some.inj hcall)
            exact ⟨hready, hsent ▸ hsent', hflight.of_same hreceived hstream⟩
      | pingResponse => cases hcall
  | some nonce =>
      cases call with
      | pingResponse =>
          by_cases hstream : e.stream = []
          · simp only [read_empty hstream] at hcall
            cases hcall
          · obtain ⟨m, c', e₁, hread, hr, hflight, hsent, -⟩ := h.read hsrc hflight hstream
            simp only [hread] at hcall
            cases Option.some.inj hcall
            refine ⟨⟨c', none, rfl, ⟨hr.session, hr.peer, hr.sent, hr.last, hr.readErrors⟩⟩, ?_,
              hflight.of_same rfl rfl⟩
            exact hsent.trans (List.append_nil _).symm
      | _ => cases hcall

/-! ## The hellos -/

section

variable {σ : Type} {sign : Sign σ} {setup : ControlSetup sign} {nonce : FixedBytes 32}
  {timestamp : UInt64} {error : ControlError}

/-- The client's hello, with this nonce. -/
def ControlSetup.IsClientHello (setup : ControlSetup sign) (nonce : FixedBytes 32)
    (message : ParsedMessage) : Prop :=
  ∃ (material : FixedBytes 32) (timestamp : UInt64),
    setup.exporter setup.sessionId = some material ∧
    writeNew .clientHello flagAckRequired setup.sessionId 1 timestamp.toNat
      (encodeClientHello setup.client setup.sessionId material nonce) = .ok message

/-- The server's answer to a hello with this nonce. -/
def ControlSetup.IsServerHello (setup : ControlSetup sign) (clientNonce : FixedBytes 32)
    (message : ParsedMessage) : Prop :=
  ∃ (material nonce : FixedBytes 32) (timestamp : UInt64),
    setup.exporter setup.sessionId = some material ∧
    writeNew .serverHello flagResponse setup.sessionId 1 timestamp.toNat
      (encodeServerHello setup.server setup.sessionId material setup.client.publicKey clientNonce
        nonce) = .ok message

/-- Why the client fails. -/
inductive ControlSetup.ClientFails (setup : ControlSetup sign) : ControlError → Prop
  | exporter (h : setup.exporter setup.sessionId = none) :
      setup.ClientFails (.authentication "TLS exporter keying material is unavailable")
  | session (h : setup.sessionId.val.all (fun byte => byte == 0) = true) :
      setup.ClientFails (.protocol .zeroSessionId)
  | untrusted (key : FixedBytes 32) (h : setup.expectedServer = some key)
      (hne : key ≠ setup.server.publicKey) :
      setup.ClientFails (.authentication "server device identity key is not trusted")

/-- Why the server fails. -/
inductive ControlSetup.ServerFails (setup : ControlSetup sign) : ControlError → Prop
  | exporter (sessionId : SessionId) (h : setup.serverSession = some sessionId)
      (hnone : setup.exporter sessionId = none) :
      setup.ServerFails (.authentication "TLS exporter keying material is unavailable")
  | session (sessionId : SessionId) (h : setup.serverSession = some sessionId)
      (hne : sessionId ≠ setup.sessionId) :
      setup.ServerFails (.authentication "invalid client hello header")
  | untrusted (key : FixedBytes 32) (h : setup.expectedClient = some key)
      (hne : key ≠ setup.client.publicKey) :
      setup.ServerFails (.authentication "client device identity key is not trusted")

theorem sentBelow_hello {messageType : MessageType} {flags : Nat} {payload : Bytes}
    (h : writeNew messageType flags sessionId 1 timestamp.toNat payload = .ok message) :
    SentBelow sessionId 2 [message] := by
  have hwritten := written_of_writeNew h (by decide) timestamp.toNat_lt
  obtain ⟨-, rfl⟩ := writeNew_eq_ok_iff.mp h
  exact (sentBelow_nil sessionId 1).append hwritten rfl rfl

theorem ControlSetup.IsClientHello.sentBelow (h : setup.IsClientHello nonce message) :
    SentBelow setup.sessionId 2 [message] := by
  obtain ⟨material, timestamp, -, hwrite⟩ := h
  exact sentBelow_hello hwrite

theorem ControlSetup.IsServerHello.sentBelow (h : setup.IsServerHello nonce message) :
    SentBelow setup.sessionId 2 [message] := by
  obtain ⟨material, serverNonce, timestamp, -, hwrite⟩ := h
  exact sentBelow_hello hwrite

/-- What a hello in a valid session fails on. -/
theorem validateFields_hello {messageType : MessageType} {flags length : Nat}
    {invalid : ProtocolError} (hflags : flags < firstUnknownFlag)
    (hlength : length ≤ messageType.maxPayloadLen)
    (h : validateFields messageType flags messageType.channel sessionId 1 length =
      .error invalid) :
    sessionId.val.all (fun byte => byte == 0) = true ∧ invalid = .zeroSessionId := by
  unfold validateFields at h
  have hknown : flags / firstUnknownFlag = 0 := Nat.div_eq_of_lt hflags
  rw [if_neg (not_not.mpr hknown), if_neg (not_not.mpr rfl)] at h
  split at h
  · cases h
    exact ⟨‹_›, rfl⟩
  · rw [if_neg (by decide), if_neg (Nat.not_lt.mpr hlength)] at h
    cases h

theorem length_encodeClientHello (identity : DeviceIdentity sign) (sessionId : SessionId)
    (exporter nonce : FixedBytes 32) :
    (encodeClientHello identity sessionId exporter nonce).length = clientHelloLen := by
  simp [encodeClientHello, clientHelloFields, identity.publicKey.property, nonce.property,
    (sign.signDetached _ identity.secretKey).property, clientHelloLen]

theorem length_encodeServerHello (identity : DeviceIdentity sign) (sessionId : SessionId)
    (exporter clientKey clientNonce nonce : FixedBytes 32) :
    (encodeServerHello identity sessionId exporter clientKey clientNonce nonce).length =
      serverHelloLen := by
  simp [encodeServerHello, serverHelloFields, identity.publicKey.property, nonce.property,
    clientNonce.property, (sign.signDetached _ identity.secretKey).property, serverHelloLen]

/-- The client's hello, or why there is none. -/
theorem clientHello_cases (setup : ControlSetup sign) (nonce : FixedBytes 32)
    (timestamp : UInt64) :
    (∃ hello, clientHello setup.client setup.exporter setup.sessionId nonce timestamp.toNat =
        .ok hello ∧ setup.IsClientHello nonce hello) ∨
      ∃ error, clientHello setup.client setup.exporter setup.sessionId nonce timestamp.toNat =
        .error error ∧ setup.ClientFails error := by
  unfold clientHello exportKeyingMaterial
  cases hmaterial : setup.exporter setup.sessionId with
  | none => exact .inr ⟨_, rfl, .exporter hmaterial⟩
  | some material =>
      cases hwrite : writeNew .clientHello flagAckRequired setup.sessionId 1 timestamp.toNat
          (encodeClientHello setup.client setup.sessionId material nonce) with
      | ok hello => exact .inl ⟨hello, hwrite, material, timestamp, hmaterial, hwrite⟩
      | error error =>
          obtain ⟨invalid, rfl, hvalid⟩ := writeNew_eq_error hwrite
          obtain ⟨hzero, rfl⟩ := validateFields_hello (by decide)
            (by rw [length_encodeClientHello]; decide) hvalid
          exact .inr ⟨_, hwrite, .session hzero⟩

/-- What the server says to the client's hello, where it exported the same. -/
theorem answerClient_cases (hsign : sign.Lawful) {request : ParsedMessage}
    (hrequest : setup.IsClientHello nonce request) {material : FixedBytes 32}
    (hmaterial : setup.exporter setup.sessionId = some material) (serverNonce : FixedBytes 32)
    (timestamp : UInt64) :
    (∃ answer, answerClient setup.server material setup.expectedClient setup.sessionId serverNonce
        timestamp.toNat request = .ok (.start setup.sessionId setup.client.publicKey, answer) ∧
        setup.IsServerHello nonce answer) ∨
      ∃ error, answerClient setup.server material setup.expectedClient setup.sessionId serverNonce
        timestamp.toNat request = .error error ∧ setup.ServerFails error := by
  obtain ⟨material', timestamp', hmaterial', hwrite⟩ := hrequest
  rw [hmaterial] at hmaterial'
  cases hmaterial'
  obtain ⟨hvalid, rfl⟩ := writeNew_eq_ok_iff.mp hwrite
  have hparse := clientHelloOf_eq_ok_iff.mpr
    (parse_encodeClientHello hsign setup.client setup.sessionId material nonce)
  unfold answerClient
  simp only [hparse, bind, Except.bind]
  by_cases htrusted : setup.expectedClient.any
      (fun expected => decide (setup.client.publicKey ≠ expected)) = true
  · rw [if_pos htrusted]
    obtain ⟨key, hkey, hne⟩ := (Option.any_eq_true _ _).mp htrusted
    exact .inr ⟨_, rfl, .untrusted key hkey (Ne.symm (of_decide_eq_true hne))⟩
  · rw [if_neg htrusted]
    cases hanswer : writeNew .serverHello flagResponse setup.sessionId 1 timestamp.toNat
        (encodeServerHello setup.server setup.sessionId material setup.client.publicKey nonce
          serverNonce) with
    | ok answer =>
        exact .inl ⟨answer, rfl, material, serverNonce, timestamp, hmaterial, hanswer⟩
    | error error =>
        -- the session of the client's hello is not zero
        obtain ⟨invalid, -, hinvalid⟩ := writeNew_eq_error hanswer
        obtain ⟨hzero, -⟩ := validateFields_hello (by decide)
          (by rw [length_encodeServerHello]; decide) hinvalid
        have hsession := (validateFields_eq_ok_iff.mp hvalid).2.2.1
        rw [hzero] at hsession
        cases hsession

theorem answer_cases (hsign : sign.Lawful) {request : ParsedMessage}
    (hrequest : setup.IsClientHello nonce request) (serverNonce : FixedBytes 32)
    (timestamp : UInt64) :
    (∃ answer, setup.answer serverNonce timestamp request =
        .ok (.start setup.sessionId setup.client.publicKey, answer) ∧
        setup.IsServerHello nonce answer) ∨
      ∃ error, setup.answer serverNonce timestamp request = .error error ∧
        setup.ServerFails error := by
  obtain ⟨material, timestamp', hmaterial, hwrite⟩ := id hrequest
  obtain ⟨-, hheader⟩ := writeNew_eq_ok_iff.mp hwrite
  have hflag : hasFlag request.header.flags flagAckRequired = true := by
    rw [hheader]
    show hasFlag flagAckRequired flagAckRequired = true
    decide
  have hanswer := answerClient_cases hsign hrequest hmaterial serverNonce timestamp
  unfold ControlSetup.answer authenticateServerIn
  cases hsession : setup.serverSession with
  | none =>
      simp only [authenticateServerDiscoverSession, hflag]
      rw [if_neg (by rw [hheader]; simp)]
      have hsame : request.header.sessionId = setup.sessionId := by rw [hheader]
      simp only [hsame, exportKeyingMaterial, hmaterial]
      exact hanswer
  | some sessionId =>
      simp only [authenticateServer, exportKeyingMaterial]
      cases hexport : setup.exporter sessionId with
      | none => exact .inr ⟨_, rfl, .exporter sessionId hsession hexport⟩
      | some material' =>
          simp only [bind, Except.bind]
          by_cases hsame : sessionId = setup.sessionId
          · rw [if_neg (by rw [hflag, hheader]; simp [hsame])]
            rw [hsame, hmaterial] at hexport
            cases hexport
            rw [hsame]
            exact hanswer
          · rw [if_pos (.inr (.inl (by rw [hheader]; exact Ne.symm hsame)))]
            exact .inr ⟨_, rfl, .session sessionId hsession hsame⟩

/-- What the client says to the server's hello. -/
theorem authenticateClient_cases (hsign : sign.Lawful) {response : ParsedMessage}
    (hresponse : setup.IsServerHello nonce response) :
    authenticateClient setup.client setup.exporter setup.expectedServer setup.sessionId nonce
        response = .ok (.start setup.sessionId setup.server.publicKey) ∨
      ∃ error, authenticateClient setup.client setup.exporter setup.expectedServer setup.sessionId
        nonce response = .error error ∧ setup.ClientFails error := by
  obtain ⟨material, serverNonce, timestamp, hmaterial, hwrite⟩ := hresponse
  obtain ⟨-, rfl⟩ := writeNew_eq_ok_iff.mp hwrite
  have hparse := serverHelloOf_eq_ok_iff.mpr (parse_encodeServerHello hsign setup.server
    setup.sessionId material setup.client.publicKey nonce serverNonce)
  unfold authenticateClient exportKeyingMaterial
  simp only [hmaterial, bind, Except.bind]
  rw [if_neg (by simp [hasFlag, flagResponse])]
  simp only [hparse]
  by_cases htrusted : setup.expectedServer.any
      (fun expected => decide (setup.server.publicKey ≠ expected)) = true
  · rw [if_pos htrusted]
    obtain ⟨key, hkey, hne⟩ := (Option.any_eq_true _ _).mp htrusted
    exact .inr ⟨_, rfl, .untrusted key hkey (Ne.symm (of_decide_eq_true hne))⟩
  · rw [if_neg htrusted]
    exact .inl rfl

/-! ## Both ends -/

/-- What the client did so far. -/
def ClientOk (setup : ControlSetup sign) (e : ControlEnd) : Prop :=
  match e.phase with
  | .start => e.sent = [] ∧ e.received = []
  | .waiting _ => e.received = [] ∧ ∃ hello, e.sent = [hello]
  | .ready c _ => Ready setup.sessionId setup.server.publicKey c e ∧ e.sent ≠ []
  | .failed error => setup.ClientFails error

def ServerOk (setup : ControlSetup sign) (e : ControlEnd) : Prop :=
  match e.phase with
  | .start => e.sent = [] ∧ e.received = []
  | .waiting _ => False
  | .ready c _ => Ready setup.sessionId setup.client.publicKey c e ∧ e.sent ≠ []
  | .failed error => setup.ServerFails error

/-- What arrives changes neither what an end wrote nor what it read. -/
theorem Ready.arrived (h : Ready sessionId peerKey c e) (messages : List ParsedMessage) :
    Ready sessionId peerKey c (e.arrived messages) :=
  ⟨h.session, h.peer, h.sent, h.last, h.readErrors⟩

theorem ClientOk.arrived (h : ClientOk setup e) (messages : List ParsedMessage) :
    ClientOk setup (e.arrived messages) := by
  obtain ⟨phase, sent, received, readErrors, pings, stream⟩ := e
  cases phase with
  | ready c ping => exact ⟨h.1.arrived messages, h.2⟩
  | _ => exact h

theorem ServerOk.arrived (h : ServerOk setup e) (messages : List ParsedMessage) :
    ServerOk setup (e.arrived messages) := by
  obtain ⟨phase, sent, received, readErrors, pings, stream⟩ := e
  cases phase with
  | ready c ping => exact ⟨h.1.arrived messages, h.2⟩
  | _ => exact h

/-- What holds of the two ends: all that was sent is read or on its way, and starts with the
hellos. -/
structure PairOk (setup : ControlSetup sign) (s : ControlPair) : Prop where
  toServer : Conveys s.client s.server
  toClient : Conveys s.server s.client
  clientSent : ∃ next, SentBelow setup.sessionId next s.client.sent
  serverSent : ∃ next, SentBelow setup.sessionId next s.server.sent
  clientErrors : s.client.readErrors = []
  serverErrors : s.server.readErrors = []
  clientHello : ∀ hello rest, s.client.sent = hello :: rest →
    ∃ nonce, setup.IsClientHello nonce hello ∧ ∀ n, s.client.phase = .waiting n → n = nonce
  serverHello : ∀ hello rest, s.server.sent = hello :: rest →
    ∀ nonce, s.client.phase = .waiting nonce → setup.IsServerHello nonce hello
  silent : s.client.sent = [] → s.server.sent = []
  client : ClientOk setup s.client
  server : ServerOk setup s.server

theorem PairOk.startClient {s t : ControlPair} (hs : PairOk setup s)
    (h : setup.startClient nonce timestamp s = some t) : PairOk setup t := by
  have hclient := hs.client
  unfold ControlSetup.startClient at h
  unfold ClientOk at hclient
  split at h
  · rename_i hphase
    rw [hphase] at hclient
    obtain ⟨hsent, hreceived⟩ := hclient
    rcases clientHello_cases setup nonce timestamp with ⟨hello, hhello, his⟩ |
      ⟨error, herror, hfails⟩
    · rw [hhello] at h
      cases h
      have hsilent := hs.silent hsent
      refine ⟨hs.toServer.arrived [hello] rfl, hs.toClient.of_same rfl rfl,
        ⟨2, ?_⟩, hs.serverSent, hs.clientErrors, hs.serverErrors, ?_, ?_, ?_,
        ⟨hreceived, hello, by simp [hsent]⟩, hs.server.arrived [hello]⟩
      · show SentBelow setup.sessionId 2 (s.client.sent ++ [hello])
        rw [hsent]
        exact his.sentBelow
      · intro hello' rest heq
        have heq : s.client.sent ++ [hello] = hello' :: rest := heq
        rw [hsent] at heq
        cases heq
        refine ⟨nonce, his, fun n hn => ?_⟩
        cases hn
        rfl
      · intro hello' rest heq
        have heq : s.server.sent = hello' :: rest := heq
        rw [hsilent] at heq
        cases heq
      · intro heq
        exact absurd heq (by simp)
    · rw [herror] at h
      cases h
      exact ⟨hs.toServer, hs.toClient.of_same rfl rfl, hs.clientSent, hs.serverSent,
        hs.clientErrors, hs.serverErrors, (fun hello rest heq =>
          (hs.clientHello hello rest heq).imp (fun _ hn => ⟨hn.1, fun _ hn => nomatch hn⟩)),
        (fun _ _ _ _ hn => nomatch hn), hs.silent, hfails, hs.server⟩
  · cases h

/-- The hello that an end reads first. -/
theorem Conveys.first (h : Conveys src dst) {next : Nat}
    (hsent : SentBelow sessionId next src.sent) (hreceived : dst.received = [])
    (hstream : dst.stream ≠ []) (messageType : MessageType)
    (htype : ∀ hello rest, src.sent = hello :: rest → hello.header.messageType = messageType) :
    ∃ hello pending, src.sent = hello :: pending ∧
      readHandshakeMessage dst.stream messageType = (.ok hello, bytesOf pending) := by
  obtain ⟨hello, pending, hpending, hbytes⟩ := h.next hstream
  rw [hreceived, List.nil_append] at hpending
  have hmem : hello ∈ src.sent := hpending ▸ List.mem_cons_self
  refine ⟨hello, pending, hpending, ?_⟩
  rw [hbytes, ← htype hello pending hpending]
  exact readHandshakeMessage_written (hsent.written hello hmem)

theorem ControlSetup.IsClientHello.messageType (h : setup.IsClientHello nonce message) :
    message.header.messageType = .clientHello := by
  obtain ⟨material, timestamp, -, hwrite⟩ := h
  obtain ⟨-, rfl⟩ := writeNew_eq_ok_iff.mp hwrite
  rfl

theorem ControlSetup.IsServerHello.messageType (h : setup.IsServerHello nonce message) :
    message.header.messageType = .serverHello := by
  obtain ⟨material, serverNonce, timestamp, -, hwrite⟩ := h
  obtain ⟨-, rfl⟩ := writeNew_eq_ok_iff.mp hwrite
  rfl

theorem ControlSetup.IsClientHello.sequenceNumber (h : setup.IsClientHello nonce message) :
    message.header.sequenceNumber = 1 := by
  obtain ⟨material, timestamp, -, hwrite⟩ := h
  obtain ⟨-, rfl⟩ := writeNew_eq_ok_iff.mp hwrite
  rfl

theorem ControlSetup.IsServerHello.sequenceNumber (h : setup.IsServerHello nonce message) :
    message.header.sequenceNumber = 1 := by
  obtain ⟨material, serverNonce, timestamp, -, hwrite⟩ := h
  obtain ⟨-, rfl⟩ := writeNew_eq_ok_iff.mp hwrite
  rfl

/-- An end that read a hello and wrote one. -/
theorem ready_start {received sent : ParsedMessage} (hreceived : e.received = [received])
    (hsequence : received.header.sequenceNumber = 1) (hsent : e.sent = [sent])
    (hbelow : SentBelow sessionId 2 [sent]) (herrors : e.readErrors = []) :
    Ready sessionId peerKey (.start sessionId peerKey) e := by
  refine ⟨rfl, rfl, ?_, ⟨received, ?_, hsequence⟩, herrors⟩
  · rw [hsent]
    exact hbelow
  · rw [hreceived]
    rfl

theorem PairOk.startServer (hsign : sign.Lawful) {s t : ControlPair} (hs : PairOk setup s)
    (h : setup.startServer nonce timestamp s = some t) : PairOk setup t := by
  have hserver := hs.server
  unfold ServerOk at hserver
  unfold ControlSetup.startServer at h
  split at h
  · rename_i hphase
    rw [hphase] at hserver
    obtain ⟨hsent, hreceived⟩ := hserver
    split at h
    · rename_i error hexport
      cases h
      obtain ⟨sessionId, hsession, hexport⟩ := Option.map_eq_some_iff.mp hexport
      have hfails : setup.ServerFails error := by
        unfold exportKeyingMaterial at hexport
        split at hexport
        · cases hexport
        · cases hexport
          exact .exporter sessionId hsession ‹_›
      exact ⟨hs.toServer.of_same rfl rfl, hs.toClient, hs.clientSent, hs.serverSent,
        hs.clientErrors, hs.serverErrors, hs.clientHello, hs.serverHello, hs.silent, hs.client,
        hfails⟩
    · split at h
      · cases h
      · rename_i hstream
        obtain ⟨next, hbelow⟩ := hs.clientSent
        obtain ⟨hello, pending, hpending, hread⟩ := hs.toServer.first hbelow hreceived hstream
          .clientHello (fun hello rest heq => by
            obtain ⟨n, hhello, -⟩ := hs.clientHello hello rest heq
            exact hhello.messageType)
        rw [hread] at h
        obtain ⟨clientNonce, hhello, hwaiting⟩ := hs.clientHello hello pending hpending
        have hflight : s.client.sent = (s.server.received ++ [hello]) ++ pending := by
          rw [hreceived, hpending]
          rfl
        have hsilent : s.client.sent ≠ [] := by simp [hpending]
        rcases answer_cases hsign hhello nonce timestamp with ⟨answer, hanswer, his⟩ |
          ⟨error, herror, hfails⟩
        · simp only [hanswer] at h
          cases h
          have hone : s.server.sent ++ [answer] = [answer] := by rw [hsent, List.nil_append]
          refine ⟨⟨pending, hflight, rfl⟩, hs.toClient.arrived [answer] rfl, hs.clientSent,
            ⟨2, ?_⟩, hs.clientErrors, hs.serverErrors, hs.clientHello, ?_,
            fun heq => absurd heq hsilent, hs.client.arrived [answer], ?_⟩
          · show SentBelow setup.sessionId 2 (s.server.sent ++ [answer])
            rw [hone]
            exact his.sentBelow
          · intro answer' rest heq n hn
            have heq : s.server.sent ++ [answer] = answer' :: rest := heq
            rw [hone] at heq
            cases heq
            rw [hwaiting n hn]
            exact his
          · have hread : s.server.received ++ [hello] = [hello] := by
              rw [hreceived, List.nil_append]
            refine ⟨ready_start hread hhello.sequenceNumber hone his.sentBelow hs.serverErrors, ?_⟩
            show s.server.sent ++ [answer] ≠ []
            simp
        · simp only [herror] at h
          cases h
          exact ⟨⟨pending, hflight, rfl⟩, hs.toClient, hs.clientSent, hs.serverSent,
            hs.clientErrors, hs.serverErrors, hs.clientHello, hs.serverHello, hs.silent, hs.client,
            hfails⟩
  · cases h

theorem PairOk.finishClient (hsign : sign.Lawful) {s t : ControlPair} (hs : PairOk setup s)
    (h : setup.finishClient s = some t) : PairOk setup t := by
  have hclient := hs.client
  unfold ClientOk at hclient
  unfold ControlSetup.finishClient at h
  split at h
  · rename_i nonce hphase
    rw [hphase] at hclient
    obtain ⟨hreceived, sent, hsent⟩ := hclient
    split at h
    · cases h
    · rename_i hstream
      obtain ⟨next, hbelow⟩ := hs.serverSent
      obtain ⟨answer, pending, hpending, hread⟩ := hs.toClient.first hbelow hreceived hstream
        .serverHello
        (fun hello rest heq => (hs.serverHello hello rest heq nonce hphase).messageType)
      rw [hread] at h
      have his := hs.serverHello answer pending hpending nonce hphase
      have hflight : s.server.sent = (s.client.received ++ [answer]) ++ pending := by
        rw [hreceived, hpending]
        rfl
      rcases authenticateClient_cases hsign his with hok | ⟨error, herror, hfails⟩
      · simp only [hok] at h
        cases h
        obtain ⟨n, hhello, -⟩ := hs.clientHello sent [] hsent
        have hread : s.client.received ++ [answer] = [answer] := by
          rw [hreceived, List.nil_append]
        have hnonempty : s.client.sent ≠ [] := by simp [hsent]
        exact ⟨hs.toServer, ⟨pending, hflight, rfl⟩, hs.clientSent, hs.serverSent,
          hs.clientErrors, hs.serverErrors, (fun hello rest heq =>
            (hs.clientHello hello rest heq).imp (fun _ hn => ⟨hn.1, fun _ hn => nomatch hn⟩)),
          (fun _ _ _ _ hn => nomatch hn), hs.silent,
          ⟨ready_start hread his.sequenceNumber hsent hhello.sentBelow hs.clientErrors,
            hnonempty⟩, hs.server⟩
      · simp only [herror] at h
        cases h
        exact ⟨hs.toServer, ⟨pending, hflight, rfl⟩, hs.clientSent, hs.serverSent,
          hs.clientErrors, hs.serverErrors, (fun hello rest heq =>
            (hs.clientHello hello rest heq).imp (fun _ hn => ⟨hn.1, fun _ hn => nomatch hn⟩)),
          (fun _ _ _ _ hn => nomatch hn), hs.silent, hfails, hs.server⟩
  · cases h

end

end HbbCommon.Transport
