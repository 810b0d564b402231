import HbbCommon.Tcp.Channel
import HbbCommon.Tcp.Logic.Framing
import HbbCommon.Transport.Video.Logic.FragmentRoundTrip

/-!
# The two views of an end

What an end has still to write and what it has still to read are views of its side that
the split does not change: a send call moves only the outbound view, a read only the
inbound one. The lemmas say what each operation does to the two.
-/

namespace HbbCommon.Tcp

open HbbCommon.Base
open HbbCommon.Transport (Bytes chunk chunkCount)

variable {box : Secretbox} {key : Key} {mode : NonceMode}

/-! ## The views of a side -/

/-- What a direction needs of the end that writes. -/
structure Outbound where
  unsent : Bytes
  raw : Bool
  counter : Option (Key × NonceMode × UInt64)
  sent : List Bytes
  sealedWith : List (Nonce × Bytes)
  closed : Bool

/-- What a direction needs of the end that reads. -/
structure Inbound where
  codec : BytesCodec
  readBuf : Bytes
  counter : Option (Key × NonceMode × UInt64)
  received : List Bytes
  outcome : Option (Except StreamError Unit)

def Encrypt.sendCounter (k : Encrypt) : Key × NonceMode × UInt64 := (k.key, k.mode, k.sendSeqnum)

def Encrypt.recvCounter (k : Encrypt) : Key × NonceMode × UInt64 := (k.key, k.mode, k.recvSeqnum)

def Endpoint.raw : Endpoint → Bool
  | .joined stream => stream.codec.raw
  | .split _ write => write.raw

/-- The bytes that a send call has still to write, with what is in the write buffer. -/
def Sending.unsent (buffered : Bytes) : Sending → Bytes
  | .idle => buffered
  | .flushing bytes => buffered ++ BytesCodec.frame bytes
  | .draining chunks bytes => chunks.flatten ++ BytesCodec.frame bytes ++ buffered
  | .writing chunks => chunks.flatten ++ buffered

/-- The payload that a send call has still to frame is not too long for a frame. -/
def Sending.Framable : Sending → Prop
  | .flushing bytes | .draining _ bytes => bytes.length ≤ 0x3FFFFFFF
  | _ => True

namespace Side

/-- The bytes that are still to be written, in order. -/
def unsent (s : Side) : Bytes := s.sending.unsent s.endpoint.buffered

def outbound (s : Side) : Outbound :=
  { unsent := s.unsent, raw := s.endpoint.raw
    counter := s.endpoint.encrypt.map Encrypt.sendCounter
    sent := s.sent, sealedWith := s.sealedWith, closed := s.closed }

def inbound (s : Side) : Inbound :=
  { codec := s.endpoint.reader.codec, readBuf := s.endpoint.reader.readBuf
    counter := s.endpoint.reader.decrypt.map Encrypt.recvCounter
    received := s.received, outcome := s.outcome }

end Side

theorem flatten_writeWireBytes (bytes : Bytes) (bounded : Bool) :
    (writeWireBytes bytes bounded).flatten = bytes := by
  unfold writeWireBytes
  split
  · exact Transport.flatten_chunks (by decide)
  · simp

theorem UInt64.ofNat_succ (n : Nat) : UInt64.ofNat n + 1 = UInt64.ofNat (n + 1) := by
  rw [UInt64.ofNat_add]
  rfl

/-- The box of message number `n + 1`. -/
def sealNext (box : Secretbox) (key : Key) (mode : NonceMode) (n : Nat) (msg : Bytes) : Bytes :=
  box.sealBox msg (mode.nonce (UInt64.ofNat (n + 1)) true) key

/-! ## Sending -/

theorem Encrypt.enc_eq (box : Secretbox) {k : Encrypt} {n : Nat}
    (hk : k.sendCounter = (key, mode, UInt64.ofNat n)) (msg : Bytes) :
    k.enc box msg =
      ({ k with sendSeqnum := UInt64.ofNat (n + 1) }, sealNext box key mode n msg) := by
  obtain ⟨rfl, rfl, hseqnum⟩ := by simpa only [sendCounter, Prod.mk.injEq] using hk
  simp only [Encrypt.enc, sealNext, hseqnum, UInt64.ofNat_succ]

/-- A short frame goes into the write buffer, a long one waits for the flush. -/
theorem FramedStream.sendBytes_spec (stream : FramedStream) (hraw : stream.codec.raw = false)
    {bytes : Bytes} (hbytes : bytes.length ≤ 0x3FFFFFFF) :
    stream.sendBytes bytes = (stream, .ok (.flushing bytes)) ∨
      stream.sendBytes bytes =
        ({ stream with writeBuf := stream.writeBuf ++ BytesCodec.frame bytes }, .ok .idle) := by
  unfold FramedStream.sendBytes
  split
  · exact .inl rfl
  · rw [BytesCodec.encode, hraw, BytesCodec.encodeFrame_eq hbytes]
    exact .inr rfl

/-- The split writer writes the pending bytes first. -/
theorem FramedWriteHalf.sendBytes_spec (w : FramedWriteHalf) (bytes : Bytes) :
    ∃ chunks, w.sendBytes bytes = ({ w with pending := [] }, .draining chunks bytes) ∧
      chunks.flatten = w.pending := by
  unfold FramedWriteHalf.sendBytes
  split
  · rename_i hempty
    have hnil := List.isEmpty_iff.mp hempty
    refine ⟨[], ?_, hnil.symm⟩
    rw [← hnil]
  · exact ⟨_, rfl, flatten_writeWireBytes _ _⟩

/-- A send call of an endpoint puts the sealed frame behind what is buffered. -/
theorem Endpoint.sendRaw_spec {p : Endpoint} {n : Nat} (hraw : p.raw = false)
    (hcounter : p.encrypt.map Encrypt.sendCounter = some (key, mode, UInt64.ofNat n)) {msg : Bytes}
    (hmsg : (sealNext box key mode n msg).length ≤ 0x3FFFFFFF) :
    ∃ p' sending, p.sendRaw box msg = (p', sending) ∧ p'.raw = false ∧
      sending.Framable ∧
      sending.unsent p'.buffered =
        p.buffered ++ BytesCodec.frame (sealNext box key mode n msg) ∧
      (∃ k, p'.encrypt = some k ∧ k.sendCounter = (key, mode, UInt64.ofNat (n + 1))) ∧
      p'.reader.codec = p.reader.codec ∧ p'.reader.readBuf = p.reader.readBuf ∧
      p'.reader.decrypt.map Encrypt.recvCounter = p.reader.decrypt.map Encrypt.recvCounter := by
  obtain ⟨k, hk, hkcounter⟩ := Option.map_eq_some_iff.mp hcounter
  have henc := Encrypt.enc_eq box hkcounter msg
  have hnext : { k with sendSeqnum := UInt64.ofNat (n + 1) }.sendCounter =
      (key, mode, UInt64.ofNat (n + 1)) := by
    obtain ⟨hkey, hmode, -⟩ := by simpa only [Encrypt.sendCounter, Prod.mk.injEq] using hkcounter
    simp only [Encrypt.sendCounter, hkey, hmode]
  cases p with
  | joined stream =>
      simp only [Endpoint.encrypt] at hk
      simp only [Endpoint.sendRaw, FramedStream.sendRaw, hk, henc]
      obtain h | h := FramedStream.sendBytes_spec
        { stream with encrypt := some { k with sendSeqnum := UInt64.ofNat (n + 1) } } hraw hmsg
      · rw [h]
        refine ⟨_, _, rfl, hraw, hmsg, rfl, ⟨_, rfl, hnext⟩, rfl, rfl, ?_⟩
        simp only [reader, FramedStream.readHalf, hk]
        rfl
      · rw [h]
        refine ⟨_, _, rfl, hraw, trivial, rfl, ⟨_, rfl, hnext⟩, rfl, rfl, ?_⟩
        simp only [reader, FramedStream.readHalf, hk]
        rfl
  | split read write =>
      simp only [Endpoint.encrypt] at hk
      obtain ⟨chunks, h, hchunks⟩ := FramedWriteHalf.sendBytes_spec
        { write with encrypt := some { k with sendSeqnum := UInt64.ofNat (n + 1) } }
        (sealNext box key mode n msg)
      simp only [Endpoint.sendRaw, FramedWriteHalf.sendRaw, hk, henc, h]
      refine ⟨_, _, rfl, hraw, hmsg, ?_, ⟨_, rfl, hnext⟩, rfl, rfl, rfl⟩
      simp only [Sending.unsent, buffered, hchunks, List.append_nil]

namespace Side

theorem sendRaw_spec {s s' : Side} (hraw : s.outbound.raw = false)
    (hcounter : s.outbound.counter = some (key, mode, UInt64.ofNat s.sent.length)) {msg : Bytes}
    (hmsg : (sealNext box key mode s.sent.length msg).length ≤ 0x3FFFFFFF)
    (hstep : s.sendRaw box msg = some s') :
    s.closed = false ∧ s'.sending.Framable ∧ s'.inbound = s.inbound ∧
      s'.outbound =
        { s.outbound with
          unsent := s.unsent ++ BytesCodec.frame (sealNext box key mode s.sent.length msg)
          counter := some (key, mode, UInt64.ofNat (s.sent.length + 1))
          sent := s.sent ++ [msg]
          sealedWith := s.sealedWith ++
            [(mode.nonce (UInt64.ofNat (s.sent.length + 1)) true, msg)] } := by
  obtain ⟨p, sending, hsend, hraw', hframable, hunsent, ⟨k, hk, hkcounter⟩, hcodec, hreadBuf,
    hdecrypt⟩ := Endpoint.sendRaw_spec hraw hcounter hmsg
  simp only [sendRaw, hsend] at hstep
  split at hstep
  · rename_i hclosed hsending
    cases hstep
    have hidle : s.unsent = s.endpoint.buffered := by rw [unsent, hsending, Sending.unsent]
    have hlast : lastSealed p msg =
        [(mode.nonce (UInt64.ofNat (s.sent.length + 1)) true, msg)] := by
      obtain ⟨-, hmode, hseqnum⟩ := by
        simpa only [Encrypt.sendCounter, Prod.mk.injEq] using hkcounter
      simp only [lastSealed, hk, Option.map_some, hmode, hseqnum, Option.toList_some]
    refine ⟨hclosed, hframable, ?_, ?_⟩
    · simp only [inbound, hcodec, hreadBuf, hdecrypt]
    · rw [hidle, ← hunsent, ← hlast, ← hkcounter, ← Option.map_some, ← hk]
      simp only [outbound, unsent, hraw', show s.endpoint.raw = false from hraw]
  · cases hstep

/-- A write moves bytes from the side to the connection. -/
theorem write_spec {s s' : Side} {n : Nat} {bytes : Bytes} (hs : s.sending.Framable)
    (hstep : s.write n = some (s', bytes)) :
    s'.sending.Framable ∧ s'.inbound = s.inbound ∧
      s.outbound = { s'.outbound with unsent := bytes ++ s'.unsent } := by
  unfold write at hstep
  split at hstep
  · rename_i stream hsending hend
    split at hstep
    · cases hstep
      refine ⟨hs, ?_, ?_⟩
      · simp only [inbound, hend, Endpoint.reader, FramedStream.readHalf]
      · simp only [outbound, unsent, hsending, hend, Sending.unsent, Endpoint.buffered,
          Endpoint.raw, Endpoint.encrypt, List.take_append_drop]
    · cases hstep
  · rename_i payload stream hsending hend
    split at hstep
    · cases hstep
      refine ⟨hs, ?_, ?_⟩
      · simp only [inbound, hend, Endpoint.reader, FramedStream.readHalf]
      · simp only [outbound, unsent, hsending, hend, Sending.unsent, Endpoint.buffered,
          Endpoint.raw, Endpoint.encrypt, ← List.append_assoc, List.take_append_drop]
    · cases hstep
  · rename_i chunk chunks payload hsending
    split at hstep
    · cases hstep
      rw [hsending] at hs
      refine ⟨hs, rfl, ?_⟩
      simp only [outbound, unsent, hsending, Sending.unsent, List.flatten_cons,
        ← List.append_assoc, List.take_append_drop]
    · cases hstep
  · rename_i chunk chunks hsending
    split at hstep
    · cases hstep
      refine ⟨trivial, rfl, ?_⟩
      simp only [outbound, unsent, hsending, Sending.unsent, List.flatten_cons,
        ← List.append_assoc, List.take_append_drop]
    · cases hstep
  · cases hstep

/-- Between two writes nothing changes in what is to be sent. -/
theorem resume_spec {s s' : Side} (hraw : s.outbound.raw = false) (hs : s.sending.Framable)
    (hstep : s.resume = some s') :
    s'.sending.Framable ∧ s'.inbound = s.inbound ∧ s'.outbound = s.outbound := by
  unfold resume at hstep
  split at hstep
  · rename_i payload stream hsending hend
    rw [hsending] at hs
    have hraw' : stream.codec.raw = false := by rw [← hraw, outbound, hend, Endpoint.raw]
    split at hstep
    · rename_i hempty
      rw [FramedStream.frameBytes, hraw', BytesCodec.encodeFrame_eq hs] at hstep
      cases hstep
      refine ⟨trivial, rfl, ?_⟩
      simp only [outbound, unsent, hsending, hend, Sending.unsent, Endpoint.buffered,
        List.isEmpty_iff.mp hempty, flatten_writeWireBytes, List.nil_append, List.append_nil]
    · cases hstep
  · rename_i chunks payload hsending
    rw [hsending] at hs
    cases hstep
    refine ⟨hs, rfl, ?_⟩
    simp only [outbound, unsent, hsending, Sending.unsent, List.flatten_cons, List.nil_append]
  · rename_i payload read write hsending hend
    rw [hsending] at hs
    have hraw' : write.raw = false := by rw [← hraw, outbound, hend, Endpoint.raw]
    rw [FramedWriteHalf.frameBytes, hraw', BytesCodec.encodeFrame_eq hs] at hstep
    cases hstep
    refine ⟨trivial, rfl, ?_⟩
    simp only [outbound, unsent, hsending, hend, Sending.unsent, flatten_writeWireBytes,
      List.flatten_nil, List.nil_append]
  · rename_i chunks hsending
    cases hstep
    refine ⟨trivial, rfl, ?_⟩
    simp only [outbound, unsent, hsending, Sending.unsent, List.flatten_cons, List.nil_append]
  · rename_i hsending
    cases hstep
    refine ⟨trivial, rfl, ?_⟩
    simp only [outbound, unsent, hsending, Sending.unsent, List.flatten_nil, List.nil_append]
  · cases hstep

theorem read_spec {s s' : Side} {bytes : Bytes} (hs : s.sending.Framable)
    (hstep : s.read bytes = some s') :
    s'.sending.Framable ∧ s'.outbound = s.outbound ∧
      s'.inbound = { s.inbound with readBuf := s.inbound.readBuf ++ bytes } := by
  unfold read at hstep
  split at hstep
  · cases hstep
    refine ⟨hs, ?_, ?_⟩
    · cases hend : s.endpoint <;>
        simp [outbound, unsent, hend, Endpoint.read, Endpoint.buffered, Endpoint.raw,
          Endpoint.encrypt]
    · cases hend : s.endpoint <;>
        simp [inbound, hend, Endpoint.read, Endpoint.reader, FramedStream.readHalf]
  · cases hstep

theorem intoSplit_spec {s s' : Side} (hs : s.sending.Framable) (hstep : s.intoSplit = some s') :
    s'.sending.Framable ∧ s'.outbound = s.outbound ∧ s'.inbound = s.inbound := by
  unfold intoSplit at hstep
  split at hstep
  · rename_i stream hend hsending
    cases hstep
    refine ⟨hs, ?_, ?_⟩
    · simp [outbound, unsent, hend, Endpoint.buffered, Endpoint.raw, Endpoint.encrypt]
    · simp [inbound, hend, Endpoint.reader]
  · cases hstep

theorem close_spec {s s' : Side} (hs : s.sending.Framable) (hstep : s.close = some s') :
    s.unsent = [] ∧ s'.sending.Framable ∧ s'.inbound = s.inbound ∧
      s'.outbound = { s.outbound with closed := true } := by
  unfold close at hstep
  split at hstep
  · rename_i hsending
    split at hstep
    · rename_i hempty
      cases hstep
      refine ⟨?_, hs, rfl, rfl⟩
      rw [unsent, hsending]
      exact List.isEmpty_iff.mp hempty
    · cases hstep
  · cases hstep

end Side

/-! ## Receiving -/

theorem NonceMode.nonce_peer (mode : NonceMode) (seqnum : UInt64) :
    mode.peer.nonce seqnum false = mode.nonce seqnum true := by
  rcases mode with _ | _ | _ <;> rfl

def maxMessageLength : Nat := defaultMaxPacketLength - macBytes

theorem length_sealNext (hbox : box.Lawful) (key : Key) (mode : NonceMode) (n : Nat)
    (msg : Bytes) :
    (sealNext box key mode n msg).length = msg.length + 16 :=
  hbox.length_sealBox _ _ _

/-- The receiver opens the message that its counter is at. -/
theorem Encrypt.dec_eq (hbox : box.Lawful) {k : Encrypt} {n : Nat}
    (hk : k.recvCounter = (key, mode.peer, UInt64.ofNat n)) (msg : Bytes) :
    k.dec box (sealNext box key mode n msg) =
      ({ k with recvSeqnum := UInt64.ofNat (n + 1) }, .ok msg) := by
  obtain ⟨hkey, hmode, hseqnum⟩ := by simpa only [recvCounter, Prod.mk.injEq] using hk
  have hlength := length_sealNext hbox key mode n msg
  have hopen : box.openBox (sealNext box key mode n msg)
      (mode.peer.nonce (UInt64.ofNat (n + 1)) false) key = some msg := by
    rw [hbox.openBox_eq_some_iff, NonceMode.nonce_peer]
    rfl
  rw [dec, if_neg (by rintro ⟨-, hshort⟩; rw [hlength] at hshort; exact absurd hshort (by
    unfold macBytes; omega)), if_neg (by omega)]
  simp only [hkey, hmode, hseqnum, UInt64.ofNat_succ, hopen]

/-- The boxes of messages that follow `n` others. -/
def sealAll (box : Secretbox) (key : Key) (mode : NonceMode) (n : Nat) (msgs : List Bytes) :
    List Bytes :=
  msgs.mapIdx (fun i msg => sealNext box key mode (n + i) msg)

theorem sealAll_cons (n : Nat) (msg : Bytes) (msgs : List Bytes) :
    sealAll box key mode n (msg :: msgs) =
      sealNext box key mode n msg :: sealAll box key mode (n + 1) msgs := by
  simp only [sealAll, List.mapIdx_cons, Nat.add_zero, Nat.add_assoc, Nat.add_comm 1]

theorem sealAll_concat (n : Nat) (msgs : List Bytes) (msg : Bytes) :
    sealAll box key mode n (msgs ++ [msg]) =
      sealAll box key mode n msgs ++ [sealNext box key mode (n + msgs.length) msg] := by
  simp only [sealAll, List.mapIdx_concat]

theorem takes_sealAll (hbox : box.Lawful) {c : BytesCodec}
    (hmax : c.maxPacketLength = defaultMaxPacketLength) {n : Nat} {msgs : List Bytes}
    (hmsgs : ∀ msg ∈ msgs, msg.length ≤ maxMessageLength) :
    ∀ data ∈ sealAll box key mode n msgs, c.Takes data := by
  intro data hdata
  obtain ⟨i, hi, rfl⟩ := List.mem_mapIdx.mp hdata
  have hlimit : maxMessageLength + 16 = defaultMaxPacketLength := by decide
  have hshort := hmsgs _ (List.getElem_mem hi)
  have hlength := length_sealNext hbox key mode (n + i) msgs[i]
  have hframe : defaultMaxPacketLength ≤ 0x3FFFFFFF := by decide
  exact ⟨by omega, by omega⟩

/-- One round of `next`: the reader waits, or returns the next message. -/
inductive FramedReadHalf.Reads (box : Secretbox) (key : Key) (mode : NonceMode)
    (r : FramedReadHalf) (rest : Bytes) (n : Nat) (msgs : List Bytes) (eof : Bool) :
    FramedReadHalf × Next → Prop
  | wait {r' : FramedReadHalf} (settings : r.codec.SameSettings r'.codec)
      (decrypt : r'.decrypt = r.decrypt)
      (owes : r'.codec.Owes (r'.readBuf ++ rest) (sealAll box key mode n msgs))
      (last : rest = [] → msgs = []) :
      Reads box key mode r rest n msgs eof (r', if eof then .ended else .pending)
  | item {r' : FramedReadHalf} {msg : Bytes} {later : List Bytes}
      (settings : r.codec.SameSettings r'.codec) (msgs_eq : msgs = msg :: later)
      (recvCounter : r'.decrypt.map Encrypt.recvCounter =
        some (key, mode.peer, UInt64.ofNat (n + 1)))
      (sendCounter : r'.decrypt.map Encrypt.sendCounter = r.decrypt.map Encrypt.sendCounter)
      (owes : r'.codec.Owes (r'.readBuf ++ rest) (sealAll box key mode (n + 1) later)) :
      Reads box key mode r rest n msgs eof (r', .item msg)

theorem FramedReadHalf.next_reads (hbox : box.Lawful) {r : FramedReadHalf} {rest : Bytes} {n : Nat}
    {msgs : List Bytes} {eof : Bool} (hraw : r.codec.raw = false)
    (hmax : r.codec.maxPacketLength = defaultMaxPacketLength)
    (hcounter : r.decrypt.map Encrypt.recvCounter = some (key, mode.peer, UInt64.ofNat n))
    (hmsgs : ∀ msg ∈ msgs, msg.length ≤ maxMessageLength)
    (howes : r.codec.Owes (r.readBuf ++ rest) (sealAll box key mode n msgs))
    (heof : eof = true → rest = []) :
    r.Reads box key mode rest n msgs eof (r.next box eof) := by
  have hdecodes := BytesCodec.decode_or_eof heof
    (BytesCodec.decode_decodes hraw (takes_sealAll hbox hmax hmsgs) howes)
  unfold next
  generalize (if eof then r.codec.decodeEof r.readBuf else r.codec.decode r.readBuf) = result
    at hdecodes
  cases hdecodes with
  | wait settings owes last =>
      refine .wait settings rfl owes (fun hrest => ?_)
      cases msgs with
      | nil => rfl
      | cons msg later =>
          have hnil := (last hrest).1
          rw [sealAll_cons] at hnil
          cases hnil
  | payload settings first_eq owes =>
      cases msgs with
      | nil => cases first_eq
      | cons msg later =>
          rw [sealAll_cons] at first_eq
          obtain ⟨rfl, rfl⟩ := List.cons.inj first_eq
          obtain ⟨k, hk, hkcounter⟩ := Option.map_eq_some_iff.mp hcounter
          simp only [hk, Encrypt.dec_eq hbox hkcounter]
          obtain ⟨hkey, hmode, -⟩ := by
            simpa only [Encrypt.recvCounter, Prod.mk.injEq] using hkcounter
          refine .item settings rfl ?_ ?_ owes
          · simp only [Option.map_some, Encrypt.recvCounter, hkey, hmode]
          · rw [hk]
            rfl

end HbbCommon.Tcp
