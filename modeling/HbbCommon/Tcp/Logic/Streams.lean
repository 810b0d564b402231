import HbbCommon.Tcp.Streams
import HbbCommon.Tcp.Logic.SecureChannel

/-!
# The stream transports agree, up to the empty message

Sealing and opening are the same on the byte stream and on the WebSocket: as long as the
two ends count alike, a message that is sealed opens to itself and they count alike again.
So both return what was sent. The data channel returns every message but an empty one,
which it takes for its end.
-/

namespace HbbCommon.Tcp

open HbbCommon.Base
open HbbCommon.Transport (Bytes)

variable {box : Secretbox}

/-! ## Sealing and opening with the key of a stream -/

/-- What `send_raw` makes of a message with the key of the stream, if there is one. -/
def sealWith (box : Secretbox) (key : Option Encrypt) (msg : Bytes) : Option Encrypt × Bytes :=
  match key with
  | some key => (some (key.enc box msg).1, (key.enc box msg).2)
  | none => (none, msg)

/-- What `next` makes of the bytes of a message. -/
def openWith (box : Secretbox) (key : Option Encrypt) (bytes : Bytes) :
    Option Encrypt × Except DecryptError Bytes :=
  match key with
  | some key => (some (key.dec box bytes).1, (key.dec box bytes).2)
  | none => (none, .ok bytes)

def sealEach (box : Secretbox) : Option Encrypt → List Bytes → List Bytes
  | _, [] => []
  | key, msg :: msgs => (sealWith box key msg).2 :: sealEach box (sealWith box key msg).1 msgs

/-- The two ends count the messages of this direction alike. -/
inductive Matched : Option Encrypt → Option Encrypt → Prop
  | plain : Matched none none
  | keyed {sender receiver : Encrypt} {key : Key} {mode : NonceMode} {n : Nat}
      (send : sender.sendCounter = (key, mode, UInt64.ofNat n))
      (recv : receiver.recvCounter = (key, mode.peer, UInt64.ofNat n)) :
      Matched (some sender) (some receiver)

theorem Matched.opens (hbox : box.Lawful) {sender receiver : Option Encrypt}
    (h : Matched sender receiver) (msg : Bytes) :
    ∃ receiver', openWith box receiver (sealWith box sender msg).2 = (receiver', .ok msg) ∧
      Matched (sealWith box sender msg).1 receiver' := by
  cases h with
  | plain => exact ⟨none, rfl, .plain⟩
  | @keyed sender receiver key mode n send recv =>
      have henc := Encrypt.enc_eq box send msg
      have hdec := Encrypt.dec_eq hbox recv msg
      obtain ⟨hkey, hmode, -⟩ := by simpa only [Encrypt.sendCounter, Prod.mk.injEq] using send
      obtain ⟨hkey', hmode', -⟩ := by simpa only [Encrypt.recvCounter, Prod.mk.injEq] using recv
      refine ⟨some { receiver with recvSeqnum := UInt64.ofNat (n + 1) }, ?_, ?_⟩
      · simp only [openWith, sealWith, henc, hdec]
      · simp only [sealWith, henc]
        refine @Matched.keyed _ _ key mode (n + 1) ?_ ?_
        · simp only [Encrypt.sendCounter, hkey, hmode]
        · simp only [Encrypt.recvCounter, hkey', hmode']

theorem length_sealWith (hbox : box.Lawful) (key : Option Encrypt) (msg : Bytes) :
    (sealWith box key msg).2.length ≤ msg.length + macBytes := by
  cases key with
  | none => exact Nat.le_add_right _ _
  | some key => exact le_of_eq (hbox.length_sealBox _ _ _)

theorem length_of_mem_sealEach (hbox : box.Lawful) {key : Option Encrypt} {msgs : List Bytes}
    {limit : Nat} (hmsgs : ∀ msg ∈ msgs, msg.length ≤ limit) :
    ∀ data ∈ sealEach box key msgs, data.length ≤ limit + macBytes := by
  induction msgs generalizing key with
  | nil => exact fun _ hdata => nomatch hdata
  | cons msg msgs ih =>
      intro data hdata
      obtain rfl | hdata := List.mem_cons.mp hdata
      · exact le_trans (length_sealWith hbox key msg)
          (Nat.add_le_add_right (hmsgs msg List.mem_cons_self) _)
      · exact ih (fun m hm => hmsgs m (List.mem_cons_of_mem _ hm)) data hdata

theorem takes_sealEach (hbox : box.Lawful) {c : BytesCodec}
    (hmax : c.maxPacketLength = defaultMaxPacketLength) {key : Option Encrypt} {msgs : List Bytes}
    (hmsgs : ∀ msg ∈ msgs, msg.length ≤ maxMessageLength) :
    ∀ data ∈ sealEach box key msgs, c.Takes data := by
  intro data hdata
  have hlength := length_of_mem_sealEach hbox hmsgs data hdata
  have hlimit : maxMessageLength + macBytes = defaultMaxPacketLength := by decide
  have hframe : defaultMaxPacketLength ≤ 0x3FFFFFFF := by decide
  exact ⟨by omega, by omega⟩

/-! ## The byte stream -/

namespace FramedStream

/-- A call that runs to its end writes the frame of the sealed message. -/
theorem sendWhole_eq {s : FramedStream} (hraw : s.codec.raw = false) (hbuf : s.writeBuf = [])
    {msg : Bytes} (hmsg : (sealWith box s.encrypt msg).2.length ≤ 0x3FFFFFFF) :
    s.sendWhole box msg = .ok ({ s with encrypt := (sealWith box s.encrypt msg).1 },
      BytesCodec.frame (sealWith box s.encrypt msg).2) := by
  have hsend : s.sendRaw box msg =
      { s with encrypt := (sealWith box s.encrypt msg).1 }.sendBytes
        (sealWith box s.encrypt msg).2 := by
    obtain ⟨codec, readBuf, writeBuf, _ | key⟩ := s <;> rfl
  obtain h | h := FramedStream.sendBytes_spec
    { s with encrypt := (sealWith box s.encrypt msg).1 } hraw hmsg
  · rw [sendWhole, hsend, h]
    simp only [finish, frameBytes, hraw, BytesCodec.encodeFrame_eq hmsg, Except.map,
      Sending.chunks, flatten_writeWireBytes, hbuf, List.nil_append]
  · rw [sendWhole, hsend, h]
    simp only [finish, hbuf, List.nil_append]

theorem next_of_wait {s : FramedStream} {codec : BytesCodec} {readBuf : Bytes}
    (hdecode : s.codec.decode s.readBuf = (codec, readBuf, .ok none)) :
    s.next box false = ({ s with codec := codec, readBuf := readBuf }, .pending) := by
  simp only [FramedStream.next, FramedReadHalf.next, readHalf, if_neg Bool.false_ne_true, hdecode]

theorem next_of_frame {s : FramedStream} {codec : BytesCodec} {readBuf bytes msg : Bytes}
    {key : Option Encrypt}
    (hdecode : s.codec.decode s.readBuf = (codec, readBuf, .ok (some bytes)))
    (hopen : openWith box s.encrypt bytes = (key, .ok msg)) :
    s.next box false =
      ({ s with codec := codec, readBuf := readBuf, encrypt := key }, .item msg) := by
  simp only [FramedStream.next, FramedReadHalf.next, readHalf, if_neg Bool.false_ne_true, hdecode]
  cases hkey : s.encrypt with
  | none =>
      rw [hkey] at hopen
      cases hopen
      rfl
  | some k =>
      rw [hkey] at hopen
      obtain ⟨⟨k', result⟩, hdec⟩ : ∃ opened, k.dec box bytes = opened := ⟨_, rfl⟩
      simp only [openWith, hdec, Prod.mk.injEq] at hopen
      obtain ⟨rfl, rfl⟩ := hopen
      simp only [hdec]

theorem nextAll_of_pending {s s' : FramedStream} (hnext : s.next box false = (s', .pending)) :
    s.nextAll box = (s', [], none) := by
  rw [nextAll]
  split
  all_goals
    rename_i heq
    rw [hnext] at heq
    cases heq
  rfl

theorem nextAll_of_item {s s' : FramedStream} {msg : Bytes}
    (hnext : s.next box false = (s', .item msg)) :
    s.nextAll box = ((s'.nextAll box).1, msg :: (s'.nextAll box).2.1, (s'.nextAll box).2.2) := by
  rw [nextAll]
  split
  all_goals
    rename_i heq
    rw [hnext] at heq
    cases heq
  rfl

/-- What a sequence of `next` calls does on frames that are in place: it returns the first
messages and leaves the others to be returned later. -/
theorem nextAll_spec (hbox : box.Lawful) {s : FramedStream} {sender : Option Encrypt} {rest : Bytes}
    {msgs : List Bytes} (hraw : s.codec.raw = false)
    (hmax : s.codec.maxPacketLength = defaultMaxPacketLength)
    (hmsgs : ∀ msg ∈ msgs, msg.length ≤ maxMessageLength) (hmatched : Matched sender s.encrypt)
    (howes : s.codec.Owes (s.readBuf ++ rest) (sealEach box sender msgs)) :
    ∃ s' now later sender', s.nextAll box = (s', now, none) ∧ msgs = now ++ later ∧
      s.codec.SameSettings s'.codec ∧ Matched sender' s'.encrypt ∧
      s'.codec.Owes (s'.readBuf ++ rest) (sealEach box sender' later) ∧
      (rest = [] → later = []) := by
  -- the calls return the messages from the front, so the induction is on the messages
  induction msgs generalizing s sender with
  | nil =>
      have hdecodes := BytesCodec.decode_decodes hraw (takes_sealEach hbox hmax hmsgs) howes
      generalize hdecode : s.codec.decode s.readBuf = result at hdecodes
      cases hdecodes with
      | payload settings first_eq owes => cases first_eq
      | wait settings owes last =>
          exact ⟨_, [], [], sender, nextAll_of_pending (next_of_wait hdecode), rfl, settings,
            hmatched, owes, fun _ => rfl⟩
  | cons msg msgs ih =>
      have hdecodes := BytesCodec.decode_decodes hraw (takes_sealEach hbox hmax hmsgs) howes
      generalize hdecode : s.codec.decode s.readBuf = result at hdecodes
      cases hdecodes with
      | wait settings owes last =>
          refine ⟨_, [], msg :: msgs, sender, nextAll_of_pending (next_of_wait hdecode), rfl,
            settings, hmatched, owes, fun hrest => ?_⟩
          cases (last hrest).1
      | @payload codec' readBuf' _ _ settings first_eq owes =>
          obtain ⟨rfl, rfl⟩ := List.cons.inj first_eq
          obtain ⟨receiver, hopen, hmatched'⟩ := hmatched.opens hbox msg
          have hnext := next_of_frame hdecode hopen
          obtain ⟨s', now, later, sender', hall, hmsgs', settings', hmatched'', howes', hlast⟩ :=
            ih (s := { s with codec := codec', readBuf := readBuf', encrypt := receiver })
              (settings.1.trans hraw) (settings.2.trans hmax)
              (fun m hm => hmsgs m (List.mem_cons_of_mem _ hm)) hmatched' owes
          refine ⟨s', msg :: now, later, sender', ?_, ?_, ?_, hmatched'', howes', hlast⟩
          · rw [nextAll_of_item hnext, hall]
          · rw [hmsgs', List.cons_append]
          · exact ⟨settings'.1.trans settings.1, settings'.2.trans settings.2⟩

/-- The chunks of the frames, cut anywhere, return the messages. -/
theorem receive_spec (hbox : box.Lawful) {s : FramedStream} {sender : Option Encrypt}
    {chunks msgs : List Bytes} (hraw : s.codec.raw = false)
    (hmax : s.codec.maxPacketLength = defaultMaxPacketLength)
    (hmsgs : ∀ msg ∈ msgs, msg.length ≤ maxMessageLength) (hmatched : Matched sender s.encrypt)
    (howes : s.codec.Owes (s.readBuf ++ chunks.flatten) (sealEach box sender msgs))
    (hidle : chunks = [] → msgs = []) : ∃ s', s.receive box chunks = (s', msgs, none) := by
  induction chunks generalizing s sender msgs with
  | nil =>
      rw [hidle rfl]
      exact ⟨s, rfl⟩
  | cons chunk chunks ih =>
      rw [List.flatten_cons, ← List.append_assoc] at howes
      obtain ⟨s', now, later, sender', hall, rfl, settings, hmatched', howes', hlast⟩ :=
        nextAll_spec hbox (s := { s with readBuf := s.readBuf ++ chunk }) hraw hmax hmsgs hmatched
          howes
      obtain ⟨s'', hreceive⟩ := ih (settings.1.trans hraw) (settings.2.trans hmax)
        (fun m hm => hmsgs m (List.mem_append_right _ hm)) hmatched' howes' (by
          rintro rfl
          exact hlast rfl)
      refine ⟨s'', ?_⟩
      simp only [receive, hall, hreceive]

end FramedStream

/-! ## The WebSocket -/

namespace WsFramedStream

theorem sendRaw_eq (s : WsFramedStream) (msg : Bytes) :
    s.sendRaw box msg = ({ encrypt := (sealWith box s.encrypt msg).1 },
      .binary (sealWith box s.encrypt msg).2) := by
  obtain ⟨_ | key⟩ := s <;> rfl

theorem receive_of_pending {s s' : WsFramedStream} {events rest : List WsEvent}
    (hnext : s.next box events = (s', rest, .pending)) : s.receive box events = (s', [], none) := by
  rw [receive]
  split
  all_goals
    rename_i heq
    rw [hnext] at heq
    cases heq
  rfl

theorem receive_of_item {s s' : WsFramedStream} {events rest : List WsEvent} {msg : Bytes}
    (hnext : s.next box events = (s', rest, .item msg)) :
    s.receive box events = ((s'.receive box rest).1, msg :: (s'.receive box rest).2.1,
      (s'.receive box rest).2.2) := by
  rw [receive]
  split
  all_goals
    rename_i heq
    rw [hnext] at heq
    cases heq
  rfl

/-- Control messages are passed over. -/
theorem receive_control (s : WsFramedStream) {msg : WsMessage} (hmsg : msg.isControl = true)
    (events : List WsEvent) :
    s.receive box (.message msg :: events) = s.receive box events := by
  have hnext : s.next box (.message msg :: events) = s.next box events := by
    cases msg with
    | ping data => rfl
    | pong data => rfl
    | text text => cases hmsg
    | binary data => cases hmsg
    | close => cases hmsg
  rw [receive]
  conv_rhs => rw [receive]
  generalize s.next box (.message msg :: events) = result at hnext ⊢
  subst hnext
  rfl

theorem next_binary {s : WsFramedStream} {data msg : Bytes} {key : Option Encrypt}
    (hopen : openWith box s.encrypt data = (key, .ok msg)) (events : List WsEvent) :
    s.next box (.message (.binary data) :: events) = ({ encrypt := key }, events, .item msg) := by
  obtain ⟨_ | k⟩ := s
  · cases hopen
    rfl
  · obtain ⟨⟨k', result⟩, hdec⟩ : ∃ opened, k.dec box data = opened := ⟨_, rfl⟩
    simp only [openWith, hdec, Prod.mk.injEq] at hopen
    obtain ⟨rfl, rfl⟩ := hopen
    simp only [WsFramedStream.next, wsNext, hdec]

/-- The binary messages, with control messages between them, return the messages. -/
theorem receive_spec (hbox : box.Lawful) {s : WsFramedStream} {sender : Option Encrypt}
    {msgs : List Bytes} {events : List WsMessage} (hmatched : Matched sender s.encrypt)
    (hevents : events.filter (fun msg => !msg.isControl) =
      (sealEach box sender msgs).map .binary) :
    ∃ s', s.receive box (events.map .message) = (s', msgs, none) := by
  induction events generalizing s sender msgs with
  | nil =>
      cases msgs with
      | nil => exact ⟨s, receive_of_pending rfl⟩
      | cons msg msgs => cases hevents
  | cons event events ih =>
      rw [List.map_cons]
      cases hcontrol : event.isControl with
      | true =>
          rw [List.filter_cons_of_neg (by rw [hcontrol]; decide)] at hevents
          rw [receive_control s hcontrol]
          exact ih hmatched hevents
      | false =>
          rw [List.filter_cons_of_pos (by rw [hcontrol]; rfl)] at hevents
          cases msgs with
          | nil => cases hevents
          | cons msg msgs =>
              rw [sealEach, List.map_cons] at hevents
              obtain ⟨rfl, hrest⟩ := List.cons.inj hevents
              obtain ⟨receiver, hopen, hmatched'⟩ := hmatched.opens hbox msg
              obtain ⟨s', hreceive⟩ := ih (s := { encrypt := receiver }) hmatched' hrest
              refine ⟨s', ?_⟩
              rw [receive_of_item (next_binary hopen _), hreceive]

end WsFramedStream

/-! ## The data channel -/

namespace WebRTCStream

/-- A message that fits the buffer is returned unless it is empty. -/
theorem next_eq (s : WebRTCStream) {msg : Bytes} (hnil : msg ≠ [])
    (hmsg : msg.length ≤ dataChannelBufferSize) : s.next msg = (s, .ok msg) := by
  have hlength : msg.length ≠ 0 := fun hzero => hnil (List.eq_nil_of_length_eq_zero hzero)
  rw [next, if_neg (Nat.not_lt.mpr hmsg)]
  simp only [if_neg hlength, List.take_left]

theorem next_ne_nil {s s' : WebRTCStream} {msg bytes : Bytes} (h : s.next msg = (s', .ok bytes)) :
    bytes ≠ [] := by
  unfold next at h
  split at h
  · cases h
  · dsimp only at h
    split at h
    · cases h
    · rename_i hlength
      cases h
      rw [List.take_left]
      rintro rfl
      exact hlength rfl

/-- What `next` returns is never empty. -/
theorem nil_notMem_receive (s : WebRTCStream) (msgs : List Bytes) :
    [] ∉ (s.receive msgs).2.1 := by
  induction msgs generalizing s with
  | nil => exact List.not_mem_nil
  | cons msg msgs ih =>
      rw [receive]
      split
      · exact List.not_mem_nil
      · rename_i s' bytes hnext
        rw [List.mem_cons, not_or]
        exact ⟨(next_ne_nil hnext).symm, ih s'⟩

theorem receive_eq (s : WebRTCStream) {msgs : List Bytes} (hnil : [] ∉ msgs)
    (hmsgs : ∀ msg ∈ msgs, msg.length ≤ dataChannelBufferSize) :
    s.receive msgs = (s, msgs, none) := by
  induction msgs with
  | nil => rfl
  | cons msg msgs ih =>
      rw [List.mem_cons, not_or] at hnil
      have hnext := s.next_eq (Ne.symm hnil.1) (hmsgs msg List.mem_cons_self)
      rw [receive, hnext]
      simp only [ih hnil.2 (fun m hm => hmsgs m (List.mem_cons_of_mem _ hm))]

end WebRTCStream

/-! ## The enum -/

namespace Stream

/-- The stream with the key, if there is one. -/
def secured (key : Option (Key × NonceMode)) (s : Stream) : Stream :=
  match key with
  | some (key, mode) => s.setKeyWithMode key mode
  | none => s

/-- The key of the other end. -/
def peerKey (key : Option (Key × NonceMode)) : Option (Key × NonceMode) :=
  key.map (fun (key, mode) => (key, mode.peer))

def initialKey (key : Option (Key × NonceMode)) : Option Encrypt :=
  key.map (fun (key, mode) => .withMode key mode)

theorem matched_initialKey (key : Option (Key × NonceMode)) :
    Matched (initialKey key) (initialKey (peerKey key)) := by
  cases key with
  | none => exact .plain
  | some key => exact .keyed (n := 0) rfl rfl

theorem sendAll_webRTC (s : WebRTCStream) (msgs : List Bytes) :
    (Stream.webRTC s).sendAll box msgs = .ok (.webRTC s, msgs.map .webRTC) := by
  induction msgs with
  | nil => rfl
  | cons msg msgs ih =>
      rw [sendAll, sendRaw]
      simp only [bind, Except.bind, ih]
      rfl

theorem sendAll_webSocket (box : Secretbox) (s : WsFramedStream) (msgs : List Bytes) :
    ∃ s', (Stream.webSocket s).sendAll box msgs =
      .ok (.webSocket s', ((sealEach box s.encrypt msgs).map .binary).map .webSocket) := by
  induction msgs generalizing s with
  | nil => exact ⟨s, rfl⟩
  | cons msg msgs ih =>
      obtain ⟨s', hlater⟩ := ih { encrypt := (sealWith box s.encrypt msg).1 }
      refine ⟨s', ?_⟩
      rw [sendAll, sendRaw, WsFramedStream.sendRaw_eq]
      simp only [bind, Except.bind, hlater]
      rfl

theorem sendAll_tcp (hbox : box.Lawful) {s : FramedStream} (hraw : s.codec.raw = false)
    (hbuf : s.writeBuf = []) {msgs : List Bytes}
    (hmsgs : ∀ msg ∈ msgs, msg.length ≤ maxMessageLength) :
    ∃ s', (Stream.tcp s).sendAll box msgs =
      .ok (.tcp s', ((sealEach box s.encrypt msgs).map BytesCodec.frame).map .tcp) := by
  induction msgs generalizing s with
  | nil => exact ⟨s, rfl⟩
  | cons msg msgs ih =>
      have hlength : (sealWith box s.encrypt msg).2.length ≤ 0x3FFFFFFF :=
        le_trans (length_sealWith hbox s.encrypt msg)
          (le_trans (Nat.add_le_add_right (hmsgs msg List.mem_cons_self) _) (by decide))
      obtain ⟨s', hlater⟩ := ih (s := { s with encrypt := (sealWith box s.encrypt msg).1 }) hraw
        hbuf (fun m hm => hmsgs m (List.mem_cons_of_mem _ hm))
      refine ⟨s', ?_⟩
      rw [sendAll, sendRaw, FramedStream.sendWhole_eq hraw hbuf hlength]
      simp only [Except.map, bind, Except.bind, hlater]
      rfl

theorem receive_webRTC (s : WebRTCStream) {msgs : List Bytes}
    (hmsgs : ∀ msg ∈ msgs, msg.length ≤ dataChannelBufferSize) {arrival : Arrival}
    (h : Delivers .webRTC (msgs.map .webRTC) arrival) :
    (Stream.webRTC s).receive box arrival = msgs ↔ [] ∉ msgs := by
  generalize hsent : msgs.map Sent.webRTC = sent at h
  cases h with
  | webRTC =>
      have heq := List.map_injective_iff.mpr (fun _ _ => Sent.webRTC.inj) hsent
      subst heq
      constructor
      · intro hall
        rw [← hall]
        exact s.nil_notMem_receive msgs
      · intro hnil
        rw [receive, s.receive_eq hnil hmsgs]

theorem receive_webSocket (hbox : box.Lawful) {s : WsFramedStream} {sender : Option Encrypt}
    (hmatched : Matched sender s.encrypt) {msgs : List Bytes} {arrival : Arrival}
    (h : Delivers .webSocket (((sealEach box sender msgs).map .binary).map .webSocket) arrival) :
    (Stream.webSocket s).receive box arrival = msgs := by
  generalize hsent : ((sealEach box sender msgs).map WsMessage.binary).map Sent.webSocket = sent
    at h
  cases h with
  | webSocket =>
      have heq := List.map_injective_iff.mpr (fun _ _ => Sent.webSocket.inj) hsent
      obtain ⟨s', hreceive⟩ := WsFramedStream.receive_spec hbox hmatched heq.symm
      rw [receive, hreceive]

theorem receive_tcp (hbox : box.Lawful) {s : FramedStream} {sender : Option Encrypt}
    (hmatched : Matched sender s.encrypt) (hstate : s.codec = .new) (hbuf : s.readBuf = [])
    {msgs : List Bytes} (hmsgs : ∀ msg ∈ msgs, msg.length ≤ maxMessageLength) {arrival : Arrival}
    (h : Delivers .tcp (((sealEach box sender msgs).map BytesCodec.frame).map .tcp) arrival) :
    (Stream.tcp s).receive box arrival = msgs := by
  generalize hsent : ((sealEach box sender msgs).map BytesCodec.frame).map Sent.tcp = sent at h
  cases h with
  | @tcp _ chunks hbytes =>
      have heq := List.map_injective_iff.mpr (fun _ _ => Sent.tcp.inj) hsent
      subst heq
      have howes : s.codec.Owes (s.readBuf ++ chunks.flatten) (sealEach box sender msgs) := by
        rw [hstate, hbuf]
        exact hbytes
      obtain ⟨s', hreceive⟩ := FramedStream.receive_spec hbox (by rw [hstate]; rfl)
        (by rw [hstate]; rfl) hmsgs hmatched howes (by
          rintro rfl
          cases msgs with
          | nil => rfl
          | cons msg msgs =>
              rw [sealEach, List.map_cons, List.flatten_cons] at hbytes
              exact absurd (List.append_eq_nil_iff.mp hbytes.symm).1
                (BytesCodec.frame_ne_nil _))
      rw [receive, hreceive]

/-- For every transport, key and sequence of messages of at most 65535 bytes: the messages
are sent, and however the network delivers them, `next` returns exactly them on the other
end if and only if none is empty or the transport is not the data channel. -/
theorem received_eq_sent_iff (box : Secretbox) (hbox : box.Lawful) (transport : Transport)
    (key : Option (Key × NonceMode)) (msgs : List Bytes)
    (hmsgs : ∀ msg ∈ msgs, msg.length ≤ 65535) :
    ∃ s sent, ((connected transport).secured key).sendAll box msgs = .ok (s, sent) ∧
      ∀ arrival, Delivers transport sent arrival →
        (((connected transport).secured (peerKey key)).receive box arrival = msgs ↔
          (transport = .webRTC → [] ∉ msgs)) := by
  have hmatched := matched_initialKey key
  have hlong : ∀ msg ∈ msgs, msg.length ≤ maxMessageLength :=
    fun msg hmsg => le_trans (hmsgs msg hmsg) (by decide)
  cases transport with
  | webRTC =>
      have hkey : ∀ key, (connected .webRTC).secured key = .webRTC { closed := false } := by
        rintro (_ | ⟨key, mode⟩) <;> rfl
      rw [hkey, hkey]
      refine ⟨_, _, sendAll_webRTC _ msgs, ?_⟩
      intro arrival harrival
      rw [receive_webRTC _ hmsgs harrival]
      exact ⟨fun hnil _ => hnil, fun hnil => hnil rfl⟩
  | webSocket =>
      have hkey : ∀ key, (connected .webSocket).secured key =
          .webSocket { encrypt := initialKey key } := by
        rintro (_ | ⟨key, mode⟩) <;> rfl
      rw [hkey, hkey]
      obtain ⟨s, hsend⟩ := sendAll_webSocket box { encrypt := initialKey key } msgs
      refine ⟨_, _, hsend, ?_⟩
      intro arrival harrival
      exact iff_of_true (receive_webSocket hbox hmatched harrival) nofun
  | tcp =>
      have hkey : ∀ key, (connected .tcp).secured key =
          .tcp { FramedStream.new with encrypt := initialKey key } := by
        rintro (_ | ⟨key, mode⟩) <;> rfl
      rw [hkey, hkey]
      obtain ⟨s, hsend⟩ := sendAll_tcp hbox
        (s := { FramedStream.new with encrypt := initialKey key }) rfl rfl hlong
      refine ⟨_, _, hsend, ?_⟩
      intro arrival harrival
      exact iff_of_true (receive_tcp hbox hmatched rfl rfl hlong harrival) nofun

open Channel (sampleBox sampleBox_lawful sampleKey)

/-- A sealed message and an empty one on the byte stream, and messages that are not empty on
the data channel. -/
theorem received_eq_sent_sample :
    (∃ s sent, ((connected .tcp).secured (some (sampleKey, .directional .viewer))).sendAll sampleBox
        [[1, 2, 3], []] = .ok (s, sent) ∧
      ∀ arrival, Delivers .tcp sent arrival →
        ((connected .tcp).secured (peerKey (some (sampleKey, .directional .viewer)))).receive
          sampleBox arrival = [[1, 2, 3], []]) ∧
    ∃ s sent, ((connected .webRTC).secured none).sendAll sampleBox [[1, 2], [3]] = .ok (s, sent) ∧
      ∀ arrival, Delivers .webRTC sent arrival →
        ((connected .webRTC).secured (peerKey none)).receive sampleBox arrival = [[1, 2], [3]] := by
  constructor
  · obtain ⟨s, sent, hsend, hreceive⟩ := received_eq_sent_iff sampleBox sampleBox_lawful .tcp
      (some (sampleKey, .directional .viewer)) [[1, 2, 3], []] (by decide)
    exact ⟨s, sent, hsend, fun arrival h => (hreceive arrival h).mpr (by decide)⟩
  · obtain ⟨s, sent, hsend, hreceive⟩ := received_eq_sent_iff sampleBox sampleBox_lawful .webRTC
      none [[1, 2], [3]] (by decide)
    exact ⟨s, sent, hsend, fun arrival h => (hreceive arrival h).mpr (by decide)⟩

/-- On the data channel an empty message ends the session. -/
theorem empty_message_lost :
    ∃ s sent, ((connected .webRTC).secured none).sendAll sampleBox [[1], [], [2]] = .ok (s, sent) ∧
      Delivers .webRTC sent (.webRTC [[1], [], [2]]) ∧
      ((connected .webRTC).secured none).receive sampleBox (.webRTC [[1], [], [2]]) = [[1]] :=
  ⟨_, _, sendAll_webRTC _ _, .webRTC, by decide +kernel⟩

end Stream

end HbbCommon.Tcp
