import HbbCommon.Transport.Application.MousePath
import HbbCommon.Transport.Application.Logic.MediaEncoding
import HbbCommon.Transport.Logic.DatagramBuffer

/-!
# Pointer motion

The latest-value slot keeps one pending movement, and the next one replaces it. For
absolute movements nothing is lost by that; a relative movement that replaces a
pending one loses the motion of the pending one.

`outstanding` lists the messages that the peer has or will have once all that is on
its way has arrived. The sending, transmitting and receiving steps leave it as it is,
and an enqueue call adds its message to it, less the pending message that it
replaces. `Keeps` says of a call that this makes no difference to the pointer.
-/

namespace HbbCommon.Transport

open HbbCommon.Base

/-! ## Movements -/

/-- The movement that `enqueue` builds from a mouse message. -/
def moveOf (parse : Bytes → Option Message) (payload : Bytes) : Option MouseOutbound :=
  match (parse payload).bind classifyMessage with
  | some (.mouse mode x y buttonStateMask) =>
      some { mode := mode, x := x, y := y, buttonStateMask := buttonStateMask, payload := payload }
  | _ => none

/-- Where the pointer is after a movement. -/
def MouseOutbound.moved (item : MouseOutbound) (position : Int × Int) : Int × Int :=
  match item.mode with
  | .absolute => (item.x.toInt, item.y.toInt)
  | .relative => (position.1 + item.x.toInt, position.2 + item.y.toInt)

def applyMove (parse : Bytes → Option Message) (position : Int × Int) (payload : Bytes) :
    Int × Int :=
  match moveOf parse payload with
  | some item => item.moved position
  | none => position

/-- Where the pointer is after a list of messages, oldest first. -/
def pointer (parse : Bytes → Option Message) (origin : Int × Int) (payloads : List Bytes) :
    Int × Int :=
  payloads.foldl (applyMove parse) origin

/-- The movement can be encoded for a datagram of the negotiated size. -/
structure MouseOutbound.Sendable (maxDatagram : Nat) (item : MouseOutbound) : Prop where
  inRange : item.mode.InRange item.x item.y
  nonempty : item.payload ≠ []
  length_le : item.payload.length ≤ maxApplicationMouseBytes
  fits : headerLen + applicationMouseHeaderLen + item.payload.length ≤ maxDatagram

variable {parse : Bytes → Option Message} {origin : Int × Int}

theorem pointer_append (first second : List Bytes) :
    pointer parse origin (first ++ second) =
      pointer parse (pointer parse origin first) second :=
  List.foldl_append

theorem pointer_snoc {payload : Bytes} {item : MouseOutbound} (h : moveOf parse payload = some item)
    (payloads : List Bytes) :
    pointer parse origin (payloads ++ [payload]) =
      item.moved (pointer parse origin payloads) := by
  rw [pointer_append]
  show applyMove parse _ payload = _
  unfold applyMove
  rw [h]

theorem moveOf_eq_some_iff {payload : Bytes} {item : MouseOutbound} :
    moveOf parse payload = some item ↔
      item.payload = payload ∧ ∃ message, parse payload = some message ∧
        classifyMessage message = some (.mouse item.mode item.x item.y item.buttonStateMask) := by
  unfold moveOf
  constructor
  · intro h
    split at h
    · rename_i mode x y mask hclass
      cases h
      exact ⟨rfl, Option.bind_eq_some_iff.mp hclass⟩
    · cases h
  · rintro ⟨rfl, message, hparse, hclass⟩
    rw [hparse, Option.bind_some, hclass]

theorem MouseOutbound.Sendable.accepted {maxDatagram : Nat} {item : MouseOutbound}
    (h : item.Sendable maxDatagram) (hmove : moveOf parse item.payload = some item) :
    item.Accepted := by
  obtain ⟨_, message, _, hclass⟩ := moveOf_eq_some_iff.mp hmove
  exact ⟨h.nonempty, (ApplicationStream.mouseEvent_of_classify hclass).2⟩

/-- The mouse branch of `enqueue`. -/
theorem ApplicationStream.enqueue_move {s : ApplicationStream} {c : SenderConfig} {payload : Bytes}
    {item : MouseOutbound} (hclosing : s.closing = false) (hopen : s.connectionClosed = false)
    (hraw : s.rawMode = false) (hmove : moveOf parse payload = some item) :
    s.enqueue parse c payload = some ({ s with latestMouse := some item }, .ok ()) := by
  obtain ⟨rfl, message, hparse, hclass⟩ := moveOf_eq_some_iff.mp hmove
  obtain ⟨⟨event, rfl⟩, _⟩ := mouseEvent_of_classify hclass
  unfold enqueue enqueueWithLatestKey
  rw [if_neg (by simp [hclosing]), if_neg (by simp [hopen]), if_neg (by simp [hraw])]
  simp only [hparse, dispatch, isVideoOrderingMessage, Bool.false_eq_true, if_false, hclass,
    audioFormatOf, Option.getD_none]

/-! ## Datagrams in flight -/

/-- The application message in a mouse datagram. -/
def payloadOf (datagram : Bytes) : Option Bytes :=
  match (decodeApplicationMouseMovement datagram).run with
  | some (.ok (_, payload)) => some payload
  | _ => none

/-- A datagram of the writer: its sequence number and its message. -/
structure Carried (parse : Bytes → Option Message) (sessionId : SessionId) (maxDatagram : Nat)
    (datagram : Bytes) (sequence : Nat) (payload : Bytes) : Prop where
  encoded : ∃ movement size, encodeApplicationMouseMovement sessionId movement payload size =
    .ok datagram ∧ movement.sequenceNumber.toNat = sequence
  length_le : datagram.length ≤ maxDatagram
  move : ∃ item, moveOf parse payload = some item

/-- The sequence numbers in flight increase, from the last one that was received to
the next one that is sent. -/
def Flight (parse : Bytes → Option Message) (sessionId : SessionId) (maxDatagram : Nat) :
    Nat → Nat → List Bytes → Prop
  | last, next, [] => last < next
  | last, next, datagram :: rest =>
      ∃ sequence payload, Carried parse sessionId maxDatagram datagram sequence payload ∧
        last < sequence ∧ Flight parse sessionId maxDatagram sequence next rest

variable {sessionId : SessionId} {maxDatagram : Nat}

theorem Carried.payloadOf_eq {datagram payload : Bytes} {sequence : Nat}
    (h : Carried parse sessionId maxDatagram datagram sequence payload) :
    payloadOf datagram = some payload := by
  obtain ⟨movement, size, hencode, _⟩ := h.encoded
  unfold payloadOf
  rw [(decode_of_encodeApplication hencode).1]

theorem Flight.append {last next : Nat} {datagrams : List Bytes} {datagram payload : Bytes}
    (h : Flight parse sessionId maxDatagram last next datagrams)
    (hnew : Carried parse sessionId maxDatagram datagram next payload) :
    Flight parse sessionId maxDatagram last (next + 1) (datagrams ++ [datagram]) := by
  induction datagrams generalizing last with
  | nil => exact ⟨next, payload, hnew, h, Nat.lt_succ_self next⟩
  | cons d rest ih =>
      obtain ⟨sequence, payload', hcarried, hlt, hrest⟩ := h
      exact ⟨sequence, payload', hcarried, hlt, ih hrest⟩

theorem MouseMovementReceiver.applyApplication_carried {r : MouseMovementReceiver}
    {datagram payload : Bytes} {sequence : Nat}
    (h : Carried parse r.sessionId maxDatagram datagram sequence payload)
    (hnew : r.lastSequence < sequence) :
    ∃ movement, r.applyApplication datagram =
      some ({ r with lastSequence := sequence }, .ok (some (movement, payload))) := by
  obtain ⟨movement, size, hencode, rfl⟩ := h.encoded
  obtain ⟨hdecode, message, hmessage, hsession⟩ := decode_of_encodeApplication hencode
  refine ⟨movement, ?_⟩
  unfold applyApplication accept
  simp only [hmessage, hsession, hdecode, ne_eq, not_true_eq_false, if_false]
  rw [if_neg (Nat.not_le.mpr hnew)]

namespace MousePath

variable {s s' : MousePath} {c : SenderConfig}

/-- The reader hands the message of such a datagram to the application. -/
theorem read_carried {datagram payload : Bytes} {sequence : Nat}
    (hsize : s.sender.negotiatedMaxDatagramSize = maxDatagram)
    (h : Carried parse s.receiver.sessionId maxDatagram datagram sequence payload)
    (hnew : s.receiver.lastSequence < sequence) :
    s.read parse datagram = some { s with
      receiver := { s.receiver with lastSequence := sequence }
      delivered := s.delivered ++ [payload] } := by
  obtain ⟨movement', happly⟩ := MouseMovementReceiver.applyApplication_carried h hnew
  obtain ⟨movement, size, hencode, _⟩ := h.encoded
  obtain ⟨item, hmove⟩ := h.move
  obtain ⟨_, _, _, hmessage⟩ := encodeApplicationMouseMovement_eq_ok_iff.mp hencode
  have hlong : (movement.applicationPayload payload).length ≠ mouseMovementPayloadLen := by
    rw [movement.length_applicationPayload]
    show 24 + payload.length ≠ 20
    omega
  have hroute := routeDatagram_mouse hmessage h.length_le
  rw [if_neg hlong] at hroute
  have hvalid : validateMouseMessage parse payload = true := by
    obtain ⟨_, message, hparse, hclass⟩ := moveOf_eq_some_iff.mp hmove
    unfold validateMouseMessage
    rw [hparse, Option.bind_some, hclass]
  unfold read
  rw [hsize, hroute]
  simp only [happly, Option.bind_eq_bind, Option.bind_some, hvalid, if_true, Option.pure_def]

/-! ## A network with room -/

/-- The connection is open, the path carries datagrams of the negotiated size, and
there is room for this one. -/
structure RoomFor (maxDatagram : Nat) (connection : Connection) (payload : Bytes) : Prop where
  isOpen : connection.closed = false
  path : ∃ current, connection.maxDatagramSize = some current ∧ maxDatagram ≤ current
  space : headerLen + applicationMouseHeaderLen + payload.length ≤ connection.space

/-- Movements are in range and fit a datagram, and the writer finds room. -/
def Network (parse : Bytes → Option Message) (maxDatagram : Nat) (s : MousePath) :
    MousePathAction → Prop
  | .enqueue payload => ∃ item, moveOf parse payload = some item ∧ item.Sendable maxDatagram
  | .send _ _ connection _ =>
      s.sender.nextMouseSequence < u64Max ∧
        ∀ item, s.writer = .holding item → RoomFor maxDatagram connection item.payload
  | _ => True

/-- The writer sends what it holds. -/
theorem send_spec {w : QuicDatagramSender} (hw : w.InUse maxDatagram)
    (hnext : w.nextMouseSequence < u64Max) {item : MouseOutbound}
    (hmove : moveOf parse item.payload = some item) (hsendable : item.Sendable maxDatagram)
    {connection : Connection} (hroom : RoomFor maxDatagram connection item.payload)
    (coordinator : QuicDatagramSendCoordinator) (path : PathStats) (timestampUs : Nat) :
    let f := w.send coordinator connection path timestampUs (callOf item)
    ∃ datagram, f.sender = { w with nextMouseSequence := w.nextMouseSequence + 1 } ∧
      f.sent = [datagram] ∧ f.result = .ok (.small (some w.nextMouseSequence)) ∧
      Carried parse w.sessionId maxDatagram datagram w.nextMouseSequence item.payload := by
  intro f
  obtain ⟨current, hpath, hlarge⟩ := hroom.path
  have hsize := hw.maxDatagramSize hpath hlarge
  obtain ⟨datagram, hitem⟩ := (hw.encodeMouseItem_ok_iff hpath hlarge
    (hsendable.accepted hmove) timestampUs).mpr
    ⟨hsendable.inRange, hsendable.length_le, hsendable.fits⟩
  have hencode : encodeApplicationMouseMovement w.sessionId
      (w.movement timestampUs item.mode item.x item.y 0 item.buttonStateMask) item.payload
      maxDatagram = .ok datagram := by
    simpa only [QuicDatagramSender.encodeMouseItem, hsize, bind_eq_ok, mapError_eq_ok_iff,
      Except.ok.injEq, exists_eq_left'] using hitem
  have hlength : datagram.length =
      headerLen + applicationMouseHeaderLen + item.payload.length := by
    obtain ⟨_, _, _, hmessage⟩ := encodeApplicationMouseMovement_eq_ok_iff.mp hencode
    obtain ⟨_, rfl⟩ := encodeMouseMessage_eq_ok_iff.mp hmessage
    rw [List.length_append, MessageHeader.length_bytes, MouseMovement.length_applicationPayload]
    omega
  have hspace := hroom.space
  have hfits := hsendable.fits
  have htaken : ∃ connection', connection.sendDatagram datagram = .ok connection' :=
    Connection.exists_sendDatagram_iff.mpr ⟨hroom.isOpen, current, hpath, by omega⟩
  obtain ⟨connection', hsend⟩ := htaken
  have hencoded : w.encode connection timestampUs (callOf item) = .ok (.mouse datagram) := by
    simp only [QuicDatagramSender.encode, callOf, hsize, hencode, QuicDatagramSender.checkSequence,
      if_pos (show w.nextMouseSequence + 1 ≤ u64Max from hnext), bind, Except.bind,
      Except.mapError, pure, Except.pure]
  refine ⟨datagram, ?_⟩
  simp only [f, QuicDatagramSender.send, hencoded, QuicDatagramSender.finish,
    QuicDatagramSender.finishSmall]
  rw [if_neg (by omega)]
  simp only [hsend]
  exact ⟨trivial, trivial, trivial, ⟨_, maxDatagram, hencode, hw.mouseSequence⟩, by omega,
    item, hmove⟩

/-! ## What is on its way -/

/-- The message that the writer holds. -/
def held : MouseWriter → List Bytes
  | .holding item => [item.payload]
  | _ => []

/-- The messages of the peer once it has received all but the pending one. -/
def ahead (s : MousePath) : List Bytes :=
  s.delivered ++ s.inFlight.filterMap payloadOf ++ held s.writer

/-- The messages of the peer once it has received everything. -/
def outstanding (s : MousePath) : List Bytes :=
  s.ahead ++ (s.stream.latestMouse.map (fun item => item.payload)).toList

/-- A relative movement replaces no pending movement, or one that does not move the
pointer from where it then is. -/
def Keeps (parse : Bytes → Option Message) (origin : Int × Int) (s : MousePath) :
    MousePathAction → Prop
  | .enqueue payload =>
      ∀ item pending, moveOf parse payload = some item → s.stream.latestMouse = some pending →
        item.mode = .relative →
        pending.moved (pointer parse origin s.ahead) = pointer parse origin s.ahead
  | _ => True

/-- A movement that the writer can send. -/
structure Ready (parse : Bytes → Option Message) (maxDatagram : Nat) (item : MouseOutbound) :
    Prop where
  move : moveOf parse item.payload = some item
  sendable : item.Sendable maxDatagram

structure MotionInv (parse : Bytes → Option Message) (origin : Int × Int) (sessionId : SessionId)
    (maxDatagram : Nat) (s : MousePath) : Prop where
  streamOpen : s.stream.closing = false ∧ s.stream.connectionClosed = false ∧
    s.stream.rawMode = false
  sender : s.sender.InUse maxDatagram ∧ s.sender.sessionId = sessionId
  receiver : s.receiver.sessionId = sessionId ∧ s.readerStopped = false
  pending : ∀ item, s.stream.latestMouse = some item → Ready parse maxDatagram item
  holding : ∀ item, s.writer = .holding item → Ready parse maxDatagram item
  flight : Flight parse sessionId maxDatagram s.receiver.lastSequence s.sender.nextMouseSequence
    s.inFlight
  position : pointer parse origin s.outstanding = pointer parse origin s.enqueued

/-- An enqueue call keeps the motion exactly when it satisfies `Keeps`. -/
theorem MotionInv.enqueue_iff (h : MotionInv parse origin sessionId maxDatagram s)
    {payload : Bytes} {item : MouseOutbound} (hmove : moveOf parse payload = some item) :
    pointer parse origin (s.ahead ++ [payload]) = pointer parse origin (s.enqueued ++ [payload]) ↔
      Keeps parse origin s (.enqueue payload) := by
  rw [pointer_snoc hmove, pointer_snoc hmove, ← h.position]
  cases hlatest : s.stream.latestMouse with
  | none =>
      have hsame : s.outstanding = s.ahead := by
        unfold outstanding
        rw [hlatest]
        exact List.append_nil _
      rw [hsame]
      refine ⟨fun _ => ?_, fun _ => rfl⟩
      intro item' pending _ hpending
      rw [hlatest] at hpending
      cases hpending
  | some pending =>
      have hready := h.pending pending hlatest
      have hoff : pointer parse origin s.outstanding =
          pending.moved (pointer parse origin s.ahead) := by
        unfold outstanding
        rw [hlatest]
        exact pointer_snoc hready.move _
      rw [hoff]
      have hkeeps : Keeps parse origin s (.enqueue payload) ↔ (item.mode = .relative →
          pending.moved (pointer parse origin s.ahead) = pointer parse origin s.ahead) := by
        constructor
        · exact fun hk => hk item pending hmove hlatest
        · intro hk item' pending' hmove' hlatest'
          rw [hmove] at hmove'
          rw [hlatest] at hlatest'
          cases hmove'
          cases hlatest'
          exact hk
      rw [hkeeps]
      unfold MouseOutbound.moved
      cases item.mode with
      | absolute => simp
      | relative =>
          simp only [Prod.mk.injEq, add_left_inj, forall_const]
          exact ⟨fun hmoved => Prod.ext hmoved.1.symm hmoved.2.symm,
            fun hmoved => ⟨(congrArg Prod.fst hmoved).symm, (congrArg Prod.snd hmoved).symm⟩⟩

theorem MotionInv.enqueue (h : MotionInv parse origin sessionId maxDatagram s) {payload : Bytes}
    {item : MouseOutbound} (hmove : moveOf parse payload = some item) :
    step parse c s (.enqueue payload) = some { s with
      stream := { s.stream with latestMouse := some item }
      enqueued := s.enqueued ++ [payload] } := by
  obtain ⟨hclosing, hopen, hraw⟩ := h.streamOpen
  simp only [step, ApplicationStream.enqueue_move hclosing hopen hraw hmove, Option.bind_eq_bind,
    Option.bind_some, Option.pure_def]

theorem MotionInv.step (h : MotionInv parse origin sessionId maxDatagram s) {a : MousePathAction}
    (hnetwork : Network parse maxDatagram s a) (hkeeps : Keeps parse origin s a)
    (hstep : MousePath.step parse c s a = some s') :
    MotionInv parse origin sessionId maxDatagram s' := by
  cases a with
  | enqueue payload =>
      obtain ⟨item, hmove, hsendable⟩ := hnetwork
      obtain ⟨hpayload, _⟩ := moveOf_eq_some_iff.mp hmove
      rw [h.enqueue hmove] at hstep
      cases hstep
      refine ⟨h.streamOpen, h.sender, h.receiver, ?_, h.holding, h.flight, ?_⟩
      · intro item' hitem'
        cases hitem'
        exact ⟨hpayload ▸ hmove, hsendable⟩
      · show pointer parse origin (s.ahead ++ [item.payload]) = _
        rw [hpayload]
        exact (h.enqueue_iff hmove).mpr hkeeps
  | take =>
      simp only [MousePath.step] at hstep
      split at hstep
      · rename_i item hidle hlatest
        cases hstep
        refine ⟨h.streamOpen, h.sender, h.receiver, ?_, ?_, h.flight, ?_⟩
        · intro item' hitem'
          cases hitem'
        · intro item' hitem'
          cases hitem'
          exact h.pending item hlatest
        · rw [← h.position]
          simp only [outstanding, ahead, hidle, hlatest, held, Option.map_some, Option.map_none,
            Option.toList_some, Option.toList_none, List.append_nil]
      · cases hstep
  | send timestampUs coordinator connection path =>
      obtain ⟨hnext, hroom⟩ := hnetwork
      obtain ⟨hw, hsession⟩ := h.sender
      simp only [MousePath.step] at hstep
      split at hstep
      · rename_i item hwriter
        have hready := h.holding item hwriter
        obtain ⟨datagram, hsender, hsent, hresult, hcarried⟩ := send_spec hw hnext hready.move
          hready.sendable (hroom item hwriter) coordinator path timestampUs
        simp only [hsender, hsent, hresult] at hstep
        cases hstep
        rw [hsession] at hcarried
        refine ⟨h.streamOpen, ⟨⟨hw.negotiated, hw.session, hw.video, hw.audio, Nat.succ_ne_zero _,
          hnext⟩, hsession⟩, h.receiver, h.pending, ?_, h.flight.append hcarried, ?_⟩
        · intro item' hitem'
          cases hitem'
        · rw [← h.position]
          simp only [outstanding, ahead, hwriter, held, List.filterMap_append,
            List.filterMap_cons, hcarried.payloadOf_eq, List.filterMap_nil, List.append_assoc,
            List.append_nil]
      · cases hstep
  | deliver =>
      obtain ⟨hreceiver, hstopped⟩ := h.receiver
      have hflight := h.flight
      simp only [MousePath.step] at hstep
      split at hstep
      · rename_i datagram rest _ hin
        rw [hin] at hflight
        obtain ⟨sequence, payload, hcarried, hnew, hrest⟩ := hflight
        rw [← hreceiver] at hcarried
        rw [read_carried (s := { s with inFlight := rest }) h.sender.1.negotiated hcarried hnew]
          at hstep
        cases hstep
        refine ⟨h.streamOpen, h.sender, ⟨hreceiver, hstopped⟩, h.pending, h.holding, hrest, ?_⟩
        rw [← h.position]
        simp only [outstanding, ahead, hin, List.filterMap_cons, hcarried.payloadOf_eq,
          List.append_assoc, List.cons_append, List.nil_append]
      · cases hstep

theorem motionInv_new (hsession : sessionId.val.all (fun byte => byte == 0) = false) :
    MotionInv parse origin sessionId maxDatagram (new sessionId maxDatagram) where
  streamOpen := ⟨rfl, rfl, rfl⟩
  sender := ⟨⟨rfl, hsession, Nat.one_ne_zero, Nat.one_ne_zero, Nat.one_ne_zero,
    show 1 ≤ u64Max by decide⟩, rfl⟩
  receiver := ⟨rfl, rfl⟩
  pending := fun _ hitem => by cases hitem
  holding := fun _ hitem => by cases hitem
  flight := Nat.zero_lt_one
  position := rfl

/-- Nothing is on its way. -/
def Settled (s : MousePath) : Prop :=
  s.writer = .idle ∧ s.stream.latestMouse = none ∧ s.inFlight = []

instance (s : MousePath) : Decidable s.Settled := inferInstanceAs (Decidable (_ ∧ _ ∧ _))

/-- In every run in which no relative movement replaces a pending movement that still
moves the pointer, the messages delivered take the pointer where the messages
enqueued do, once nothing is on its way. And at the first call that does so, the
motion of the pending movement is lost. -/
theorem pointer_motion_kept (parse : Bytes → Option Message) (c : SenderConfig)
    (sessionId : SessionId) (hsession : sessionId.val.all (fun byte => byte == 0) = false)
    (maxDatagram : Nat) (origin : Int × Int) {s : MousePath}
    (hreach : (system parse c sessionId maxDatagram).Reach
      (fun s a => Network parse maxDatagram s a ∧ Keeps parse origin s a) s) :
    (s.Settled → pointer parse origin s.delivered = pointer parse origin s.enqueued) ∧
      ∀ payload s', Network parse maxDatagram s (.enqueue payload) →
        step parse c s (.enqueue payload) = some s' →
        (pointer parse origin s'.outstanding = pointer parse origin s'.enqueued ↔
          Keeps parse origin s (.enqueue payload)) := by
  have hinv : MotionInv parse origin sessionId maxDatagram s :=
    hreach.invariant (motionInv_new hsession) (fun _ _ _ h hguard hstep =>
      h.step hguard.1 hguard.2 hstep)
  constructor
  · rintro ⟨hwriter, hlatest, hflight⟩
    have hposition := hinv.position
    simpa only [outstanding, ahead, hwriter, hlatest, hflight, held, List.filterMap_nil,
      Option.map_none, Option.toList_none, List.append_nil] using hposition
  · rintro payload s' ⟨item, hmove, _⟩ hstep
    obtain ⟨hpayload, _⟩ := moveOf_eq_some_iff.mp hmove
    rw [hinv.enqueue hmove] at hstep
    cases hstep
    show pointer parse origin (s.ahead ++ [item.payload]) = _ ↔ _
    rw [hpayload]
    exact hinv.enqueue_iff hmove

open MediaWriters in
/-- The movement of a sample message. -/
def sampleMove (payload : Bytes) (x : Int32) : MouseOutbound :=
  { mode := .relative, x := x, y := 0, buttonStateMask := 0, payload := payload }

open MediaWriters in
/-- The peers with the messages of `payloads` enqueued, and one of them taken or
pending. -/
def sampleState (pending : Option MouseOutbound) (writer : MouseWriter) (payloads : List Bytes) :
    MousePath :=
  { new mediaSession 1200 with
    stream := { ApplicationStream.new 1200 with latestMouse := pending }
    writer := writer, enqueued := payloads }

open MediaWriters in
/-- The writer sends over the sample connection. -/
def sampleSend : MousePathAction :=
  .send 1 (.new defaultInteractiveDatagramReserveBytes mediaConnection.space) mediaConnection
    { cwnd := 10000, rttUs := 20000 }

open MediaWriters in
theorem sample_network {payload : Bytes} {x : Int32} {s : MousePath}
    (h : moveOf parseSamples payload = some (sampleMove payload x) ∧
      (CoordinatesWithin 100000 x 0 ∧ payload ≠ [] ∧ payload.length ≤ 100)) :
    Network parseSamples 1200 s (.enqueue payload) := by
  obtain ⟨hmove, hrange, hnonempty, hlength⟩ := h
  refine ⟨_, hmove, hrange, hnonempty, ?_, ?_⟩
  · show payload.length ≤ 4 * 1024
    omega
  · show 48 + 24 + payload.length ≤ 1200
    omega

open MediaWriters in
theorem sample_room {pending : Option MouseOutbound} {payload : Bytes} {x : Int32}
    {payloads : List Bytes} (hlength : payload.length ≤ 100) :
    Network parseSamples 1200
      (sampleState pending (.holding (sampleMove payload x)) payloads) sampleSend := by
  refine ⟨show 1 < u64Max by decide, ?_⟩
  intro item hitem
  cases hitem
  refine ⟨rfl, ⟨1400, rfl, by decide⟩, ?_⟩
  show 48 + 24 + payload.length ≤ 2097152
  omega

open MediaWriters in
theorem pointer_motion_kept_one_move :
    ∃ s, (system parseSamples mediaConfig mediaSession 1200).run
        [.enqueue moveBy3, .take, sampleSend, .deliver] = some s ∧
      pointer parseSamples (0, 0) s.enqueued = (3, 0) ∧
      pointer parseSamples (0, 0) s.delivered = pointer parseSamples (0, 0) s.enqueued := by
  have henqueued : (system parseSamples mediaConfig mediaSession 1200).Reach
      (fun s a => Network parseSamples 1200 s a ∧ Keeps parseSamples (0, 0) s a)
      (sampleState (some (sampleMove moveBy3 3)) .idle [moveBy3]) :=
    TSys.Reach.init.step (a := .enqueue moveBy3)
      ⟨sample_network (x := 3) (by decide +kernel), fun _ _ _ hpending => by cases hpending⟩
      (by decide +kernel)
  have htaken := henqueued.step (a := MousePathAction.take) ⟨trivial, trivial⟩
    (t := sampleState none (.holding (sampleMove moveBy3 3)) [moveBy3]) (by decide +kernel)
  have hrun : ((system parseSamples mediaConfig mediaSession 1200).run
      [.enqueue moveBy3, .take, sampleSend, .deliver]).map
        (fun s => (decide s.Settled, s.enqueued)) = some (true, [moveBy3]) := by
    decide +kernel
  obtain ⟨s, hs, hstate⟩ := Option.map_eq_some_iff.mp hrun
  obtain ⟨hsettled, hpayloads⟩ := Prod.mk.inj hstate
  have hsent : (system parseSamples mediaConfig mediaSession 1200).runFrom
      (sampleState none (.holding (sampleMove moveBy3 3)) [moveBy3]) [sampleSend, .deliver] =
        some s := by
    rw [← hs]
    decide +kernel
  have hreach := by
    refine TSys.Reach.runFrom htaken ?_ hsent
    exact ⟨⟨sample_room (by decide), trivial⟩,
      fun _ _ => ⟨⟨trivial, trivial⟩, fun _ _ => trivial⟩⟩
  refine ⟨s, hs, ?_, (pointer_motion_kept parseSamples mediaConfig mediaSession (by decide) 1200
    (0, 0) hreach).1 (of_decide_eq_true hsettled)⟩
  rw [hpayloads]
  decide +kernel

open MediaWriters in
/-- Two relative movements before the writer takes the first: the pointer moves by 4
and not by 7. -/
theorem relative_motion_lost :
    ∃ s, (system parseSamples mediaConfig mediaSession 1200).run
        [.enqueue moveBy3, .enqueue moveBy4, .take, sampleSend, .deliver] = some s ∧
      (system parseSamples mediaConfig mediaSession 1200).Reach (Network parseSamples 1200) s ∧
      s.Settled ∧ pointer parseSamples (0, 0) s.enqueued = (7, 0) ∧
      pointer parseSamples (0, 0) s.delivered = (4, 0) := by
  have hfirst : (system parseSamples mediaConfig mediaSession 1200).Reach (Network parseSamples 1200)
      (sampleState (some (sampleMove moveBy3 3)) .idle [moveBy3]) :=
    TSys.Reach.init.step (a := .enqueue moveBy3) (sample_network (x := 3) (by decide +kernel))
      (by decide +kernel)
  have hsecond := hfirst.step (a := .enqueue moveBy4)
    (t := sampleState (some (sampleMove moveBy4 4)) .idle [moveBy3, moveBy4])
    (sample_network (x := 4) (by decide +kernel)) (by decide +kernel)
  have htaken := hsecond.step (a := MousePathAction.take) trivial
    (t := sampleState none (.holding (sampleMove moveBy4 4)) [moveBy3, moveBy4])
    (by decide +kernel)
  have hrun : ((system parseSamples mediaConfig mediaSession 1200).run
      [.enqueue moveBy3, .enqueue moveBy4, .take, sampleSend, .deliver]).map
        (fun s => (decide s.Settled, pointer parseSamples (0, 0) s.enqueued,
          pointer parseSamples (0, 0) s.delivered)) = some (true, (7, 0), (4, 0)) := by
    decide +kernel
  obtain ⟨s, hs, hstate⟩ := Option.map_eq_some_iff.mp hrun
  obtain ⟨hsettled, hpointers⟩ := Prod.mk.inj hstate
  obtain ⟨henqueued, hdelivered⟩ := Prod.mk.inj hpointers
  have hsent : (system parseSamples mediaConfig mediaSession 1200).runFrom
      (sampleState none (.holding (sampleMove moveBy4 4)) [moveBy3, moveBy4])
      [sampleSend, .deliver] = some s := by
    rw [← hs]
    decide +kernel
  have hreach := by
    refine TSys.Reach.runFrom htaken ?_ hsent
    exact ⟨sample_room (by decide), fun _ _ => ⟨trivial, fun _ _ => trivial⟩⟩
  exact ⟨s, hs, hreach, of_decide_eq_true hsettled, henqueued, hdelivered⟩

end MousePath

end HbbCommon.Transport
