import HbbCommon.Transport.Protocol

/-!
# Reading messages from a stream

A QUIC receive stream is the bytes that are still to come. A read that the end of
the stream cuts short takes what there is and fails. `read_message` reads the
header, allocates what the header declares, reads the payload and hands both to
`decode_message`.
-/

namespace HbbCommon.Transport

open HbbCommon.Base

inductive StreamReadError
  | stream
  | protocol (error : ProtocolError)
  deriving DecidableEq, Repr

/-- `read_exact`, with what is left of the stream. -/
def readExact (stream : Bytes) (n : Nat) : Option Bytes × Bytes :=
  if n ≤ stream.length then (some (stream.take n), stream.drop n) else (none, [])

/-- The result of `decode_header`, which has one for every input. -/
def headerOf (packet : Bytes) : Except ProtocolError MessageHeader :=
  (decodeHeader packet).run.get (decodeHeader_defined packet)

/-- The result of `decode_message`. -/
def messageOf (packet : Bytes) : Except ProtocolError ParsedMessage :=
  (decodeMessage packet).run.get (decodeMessage_defined packet)

def readHeader (stream : Bytes) :
    Except StreamReadError (Bytes × MessageHeader) × Bytes :=
  match readExact stream headerLen with
  | (none, rest) => (.error .stream, rest)
  | (some encodedHeader, rest) =>
      match headerOf encodedHeader with
      | .error error => (.error (.protocol error), rest)
      | .ok header => (.ok (encodedHeader, header), rest)

def readPayload (stream encodedHeader : Bytes) (header : MessageHeader) :
    Except StreamReadError ParsedMessage × Bytes :=
  match readExact stream header.payloadLength with
  | (none, rest) => (.error .stream, rest)
  | (some payload, rest) =>
      match messageOf (encodedHeader ++ payload) with
      | .error error => (.error (.protocol error), rest)
      | .ok parsed => (.ok { header := parsed.header, payload := payload }, rest)

def readMessage (stream : Bytes) : Except StreamReadError ParsedMessage × Bytes :=
  match readHeader stream with
  | (.error error, rest) => (.error error, rest)
  | (.ok (encodedHeader, header), rest) => readPayload rest encodedHeader header

/-! ## What a read takes -/

theorem readExact_eq_some_iff {stream : Bytes} {n : Nat} {front rest : Bytes} :
    readExact stream n = (some front, rest) ↔ stream = front ++ rest ∧ front.length = n := by
  unfold readExact
  constructor
  · intro h
    split at h
    · cases h
      refine ⟨(List.take_append_drop n stream).symm, ?_⟩
      rw [List.length_take]
      omega
    · cases h
  · rintro ⟨rfl, rfl⟩
    rw [if_pos (by simp), List.take_left, List.drop_left]

theorem headerOf_eq_ok_iff {packet : Bytes} {header : MessageHeader} :
    headerOf packet = .ok header ↔ (decodeHeader packet).run = some (.ok header) := by
  rw [Option.eq_some_iff_get_eq]
  exact ⟨fun h => ⟨_, h⟩, fun ⟨_, h⟩ => h⟩

theorem messageOf_eq_ok_iff {packet : Bytes} {message : ParsedMessage} :
    messageOf packet = .ok message ↔ (decodeMessage packet).run = some (.ok message) := by
  rw [Option.eq_some_iff_get_eq]
  exact ⟨fun h => ⟨_, h⟩, fun ⟨_, h⟩ => h⟩

theorem readHeader_eq_ok_iff {stream encodedHeader rest : Bytes} {header : MessageHeader} :
    readHeader stream = (.ok (encodedHeader, header), rest) ↔
      stream = encodedHeader ++ rest ∧
      (decodeHeader encodedHeader).run = some (.ok header) := by
  unfold readHeader
  constructor
  · intro h
    split at h
    · cases h
    · rename_i front rest' hread
      split at h
      · cases h
      · rename_i header' hheader
        cases h
        exact ⟨(readExact_eq_some_iff.mp hread).1, headerOf_eq_ok_iff.mp hheader⟩
  · rintro ⟨hstream, hheader⟩
    have hlength : encodedHeader.length = headerLen := by
      rw [(decodeHeader_eq_ok_iff.mp hheader).1, MessageHeader.length_bytes]
    rw [readExact_eq_some_iff.mpr ⟨hstream, hlength⟩]
    simp only [headerOf_eq_ok_iff.mpr hheader]

theorem readPayload_eq_ok_iff {stream encodedHeader rest : Bytes} {header : MessageHeader}
    {message : ParsedMessage} (hlength : encodedHeader.length = headerLen) :
    readPayload stream encodedHeader header = (.ok message, rest) ↔
      stream = message.payload ++ rest ∧ message.payload.length = header.payloadLength ∧
      (decodeMessage (encodedHeader ++ message.payload)).run = some (.ok message) := by
  unfold readPayload
  constructor
  · intro h
    split at h
    · cases h
    · rename_i payload rest' hread
      obtain ⟨hstream, hpayload⟩ := readExact_eq_some_iff.mp hread
      split at h
      · cases h
      · rename_i parsed hparsed
        have hdecode := messageOf_eq_ok_iff.mp hparsed
        -- the payload that was parsed is the payload that was read
        have hsame : parsed.payload = payload := by
          obtain ⟨_, hencode⟩ := decodeMessage_eq_ok_iff.mp hdecode
          obtain ⟨_, _, hbytes⟩ := encodeMessage_eq_ok_iff.mp hencode
          have hheads : encodedHeader.length = parsed.header.bytes.length := by
            rw [hlength, MessageHeader.length_bytes]
          exact (List.append_inj hbytes hheads).2.symm
        cases h
        refine ⟨hstream, hpayload, ?_⟩
        rw [hdecode, ← hsame]
  · rintro ⟨hstream, hpayload, hdecode⟩
    rw [readExact_eq_some_iff.mpr ⟨hstream, hpayload⟩]
    simp only [messageOf_eq_ok_iff.mpr hdecode]

end HbbCommon.Transport
