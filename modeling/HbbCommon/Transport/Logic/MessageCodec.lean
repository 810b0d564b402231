import HbbCommon.Transport.Stream

/-!
# The message codec is exact

`encode_message` and `decode_message` are inverse to each other, and the two ways
to read a message, header first from a stream or a whole packet at once, accept
the same bytes.
-/

namespace HbbCommon.Transport

open HbbCommon.Base

/-- Header first, then the declared length: the packets `decode_message` accepts. -/
theorem decodeMessage_eq_ok_iff_header {packet : Bytes} {message : ParsedMessage} :
    (decodeMessage packet).run = some (.ok message) ↔
      headerLen ≤ packet.length ∧
      (decodeHeader (packet.take headerLen)).run = some (.ok message.header) ∧
      packet.length = headerLen + message.header.payloadLength ∧
      message.payload = packet.drop headerLen := by
  have hslice : headerLen ≤ packet.length →
      slice packet 0 headerLen = some (packet.take headerLen) := by
    intro hlong
    rw [slice, if_pos (by omega), List.drop_zero]
  simp only [decodeMessage, run_check_eq_ok, run_bind_eq_ok, run_liftM_eq_ok, run_pure_eq_ok,
    not_not, Nat.not_lt]
  constructor
  · rintro ⟨hlong, front, hfront, header, hheader, hlength, rfl⟩
    rw [hslice hlong] at hfront
    cases hfront
    exact ⟨hlong, hheader, hlength, rfl⟩
  · rintro ⟨hlong, hheader, hlength, hpayload⟩
    refine ⟨hlong, _, hslice hlong, message.header, hheader, hlength, ?_⟩
    rw [← hpayload]

/-- The streaming reader takes one packet that `decode_message` accepts off the
stream, or fails. -/
theorem readMessage_eq_ok_iff {stream rest : Bytes} {message : ParsedMessage} :
    readMessage stream = (.ok message, rest) ↔
      ∃ packet, stream = packet ++ rest ∧ (decodeMessage packet).run = some (.ok message) := by
  unfold readMessage
  constructor
  · intro h
    split at h
    · cases h
    · rename_i encodedHeader header rest' hread
      obtain ⟨rfl, hheader⟩ := readHeader_eq_ok_iff.mp hread
      have hlength : encodedHeader.length = headerLen := by
        rw [(decodeHeader_eq_ok_iff.mp hheader).1, MessageHeader.length_bytes]
      obtain ⟨rfl, _, hdecode⟩ := (readPayload_eq_ok_iff hlength).mp h
      exact ⟨encodedHeader ++ message.payload, by rw [List.append_assoc], hdecode⟩
  · rintro ⟨packet, rfl, hdecode⟩
    obtain ⟨hlong, hheader, hpacket, hpayload⟩ := decodeMessage_eq_ok_iff_header.mp hdecode
    have hsplit : packet = packet.take headerLen ++ message.payload := by
      rw [hpayload, List.take_append_drop]
    have hstream : packet ++ rest = packet.take headerLen ++ (message.payload ++ rest) := by
      rw [← List.append_assoc, ← hsplit]
    have hlength : (packet.take headerLen).length = headerLen := by
      rw [List.length_take, Nat.min_eq_left hlong]
    rw [readHeader_eq_ok_iff.mpr ⟨hstream, hheader⟩]
    refine (readPayload_eq_ok_iff hlength).mpr ⟨rfl, ?_, ?_⟩
    · rw [hpayload, List.length_drop]
      omega
    · rw [← hsplit]
      exact hdecode

/-- What `encode_message` writes is read back, what `decode_message` accepts is
what would be written, and both readers accept the same packets. -/
theorem message_codec_exact :
    (∀ header payload packet, header.Fits → encodeMessage header payload = .ok packet →
      (decodeMessage packet).run = some (.ok { header := header, payload := payload })) ∧
    (∀ packet message, (decodeMessage packet).run = some (.ok message) →
      message.header.Fits ∧ encodeMessage message.header message.payload = .ok packet) ∧
    (∀ packet message, (decodeMessage packet).run = some (.ok message) ↔
      headerLen ≤ packet.length ∧
      (decodeHeader (packet.take headerLen)).run = some (.ok message.header) ∧
      packet.length = headerLen + message.header.payloadLength ∧
      message.payload = packet.drop headerLen) ∧
    (∀ stream rest message, readMessage stream = (.ok message, rest) ↔
      ∃ packet, stream = packet ++ rest ∧ (decodeMessage packet).run = some (.ok message)) :=
  ⟨fun _ _ _ hfits h => decodeMessage_encode hfits h,
    fun _ _ h => decodeMessage_eq_ok_iff.mp h,
    fun _ _ => decodeMessage_eq_ok_iff_header,
    fun _ _ _ => readMessage_eq_ok_iff⟩

/-- A ping with two bytes of payload. -/
def pingHeader : MessageHeader :=
  { messageType := .ping, flags := 1, channel := .control
    sessionId := ⟨List.replicate 16 7, length_replicate_sessionId⟩
    sequenceNumber := 3, payloadLength := 2, monotonicTimestampUs := 5 }

theorem message_codec_exact_ping :
    pingHeader.Fits ∧ encodeMessage pingHeader [8, 9] = .ok (pingHeader.bytes ++ [8, 9]) ∧
    (decodeMessage (pingHeader.bytes ++ [8, 9])).run =
      some (.ok { header := pingHeader, payload := [8, 9] }) ∧
    readMessage (pingHeader.bytes ++ [8, 9] ++ [1]) =
      (.ok { header := pingHeader, payload := [8, 9] }, [1]) := by
  have hfits : pingHeader.Fits := ⟨by decide, by decide, by decide, by decide⟩
  have hencode : encodeMessage pingHeader [8, 9] = .ok (pingHeader.bytes ++ [8, 9]) := rfl
  obtain ⟨hread, _, _, hstream⟩ := message_codec_exact
  have hdecode := hread pingHeader [8, 9] _ hfits hencode
  exact ⟨hfits, hencode, hdecode, (hstream _ _ _).mpr ⟨_, rfl, hdecode⟩⟩

end HbbCommon.Transport
