import HbbCommon.Transport.FileTransfer
import HbbCommon.Transport.Clipboard

/-!
# The file and clipboard codecs are exact

A decoder accepts what the encoder writes for the value it returns and nothing else: its
reads cover the payload, the reserved fields are zero, and the declared lengths are the
lengths of what follows.
-/

namespace HbbCommon.Transport

open HbbCommon.Base

/-! ## Metadata -/

theorem encodeFileMetadata_eq_ok_iff {metadata : FileTransferMetadata} {maxFileBytes : UInt64}
    {payload : Bytes} :
    encodeFileMetadata metadata maxFileBytes = .ok payload ↔
      validateMetadata metadata maxFileBytes = .ok () ∧
      payload = metadata.header.flatten ++ utf8Bytes metadata.fileName := by
  unfold encodeFileMetadata
  rw [bind_eq_ok]
  constructor
  · rintro ⟨_, hvalid, hpayload⟩
    cases hpayload
    exact ⟨hvalid, rfl⟩
  · rintro ⟨hvalid, rfl⟩
    exact ⟨(), hvalid, rfl⟩

/-- A valid name is not empty and has at most 255 bytes. -/
theorem length_of_validateMetadata {metadata : FileTransferMetadata} {maxFileBytes : UInt64}
    (h : validateMetadata metadata maxFileBytes = .ok ()) :
    metadata.fileName.utf8ByteSize ≠ 0 ∧ metadata.fileName.utf8ByteSize ≤ maxFileNameBytes := by
  simp only [validateMetadata, bind_eq_ok, validateFileName, check_eq_ok, not_or] at h
  obtain ⟨-, -, -, ⟨⟨hempty, hlong, -⟩, -⟩, -⟩ := h
  exact ⟨hempty, Nat.not_lt.mp hlong⟩

theorem FileTransferMetadata.length_header (metadata : FileTransferMetadata) :
    metadata.header.flatten.length = fileMetadataHeaderLen := by
  simp [header, metadata.transferId.property, metadata.sha256.property, fileMetadataHeaderLen]

/-- `decode_file_metadata` accepts what `encode_file_metadata` writes and nothing else. -/
theorem decodeFileMetadata_eq_ok_iff {metadata : FileTransferMetadata} {maxFileBytes : UInt64}
    {payload : Bytes} :
    (decodeFileMetadata payload maxFileBytes).run = some (.ok metadata) ↔
      encodeFileMetadata metadata maxFileBytes = .ok payload := by
  rw [encodeFileMetadata_eq_ok_iff, ← fieldsAt_and_drop_iff metadata.length_header]
  simp only [decodeFileMetadata, run_check_eq_ok, run_bind_eq_ok, run_liftM_eq_ok,
    run_except_eq_ok, run_pure_eq_ok, readU16_eq_some_iff, readU64_eq_some_iff,
    readFixed_eq_some_iff, parseText_eq_ok_iff, not_not, not_or]
  constructor
  · rintro ⟨-, _, h66, rfl, nameLen, h64, ⟨-, -, hlength⟩, fileName, hname, transferId, h0, sha256,
      h32, fileSize, h16, resumeOffset, h24, _, hvalid, rfl⟩
    -- the declared length is that of the name
    have hnameLen : nameLen.toNat = fileName.utf8ByteSize := by
      have hdrop := congrArg List.length hname
      rw [List.length_drop, length_utf8Bytes] at hdrop
      omega
    rw [hnameLen] at h64
    refine ⟨hvalid, ?_, hname⟩
    simp only [FileTransferMetadata.header, FieldsAt, length_toBeBytes, transferId.property,
      sha256.property]
    exact ⟨h0, h16, h24, h32, h64, h66, trivial⟩
  · rintro ⟨hvalid, hfields, hname⟩
    obtain ⟨hempty, hlong⟩ := length_of_validateMetadata hvalid
    have hnameLen : (UInt16.ofNat metadata.fileName.utf8ByteSize).toNat =
        metadata.fileName.utf8ByteSize :=
      UInt16.toNat_ofNat_of_lt (lt_of_le_of_lt hlong (by decide))
    simp only [FileTransferMetadata.header, FieldsAt, length_toBeBytes,
      metadata.transferId.property, metadata.sha256.property] at hfields
    obtain ⟨h0, h16, h24, h32, h64, h66, -⟩ := hfields
    have hlength := congrArg List.length hname
    rw [List.length_drop, length_utf8Bytes] at hlength
    refine ⟨by omega, 0, h66, rfl, UInt16.ofNat metadata.fileName.utf8ByteSize,
      by rw [hnameLen]; exact h64, ⟨?_, by omega, by omega⟩, _, hname, _, h0, _, h32, _, h16, _,
      h24, (), hvalid, rfl⟩
    intro hzero
    rw [hzero] at hnameLen
    exact hempty hnameLen.symm

/-! ## Chunks and cancellations -/

theorem encodeFileChunk_eq_ok_iff {chunk : FileChunk} {payload : Bytes} :
    encodeFileChunk chunk = .ok payload ↔
      validateTransferId chunk.transferId = .ok () ∧
      (chunk.data ≠ [] ∧ chunk.data.length ≤ maxFileChunkBytes) ∧
      payload = chunk.header.flatten ++ chunk.data := by
  simp only [encodeFileChunk, bind_eq_ok, check_eq_ok, not_or, Nat.not_lt]
  constructor
  · rintro ⟨_, hvalid, hsize, hpayload⟩
    cases hpayload
    exact ⟨hvalid, hsize, rfl⟩
  · rintro ⟨hvalid, hsize, rfl⟩
    exact ⟨(), hvalid, hsize, rfl⟩

theorem FileChunk.length_header (chunk : FileChunk) :
    chunk.header.flatten.length = fileChunkHeaderLen := by
  simp [header, chunk.transferId.property, fileChunkHeaderLen]

theorem decodeFileChunk_eq_ok_iff {chunk : FileChunk} {payload : Bytes} :
    (decodeFileChunk payload).run = some (.ok chunk) ↔ encodeFileChunk chunk = .ok payload := by
  rw [encodeFileChunk_eq_ok_iff, ← fieldsAt_and_drop_iff chunk.length_header]
  simp only [decodeFileChunk, run_check_eq_ok, run_bind_eq_ok, run_liftM_eq_ok, run_except_eq_ok,
    run_pure_eq_ok, readU32_eq_some_iff, readU64_eq_some_iff, readFixed_eq_some_iff, not_not,
    not_or, Nat.not_lt]
  constructor
  · rintro ⟨-, declaredLen, h24, ⟨hzero, hlong, hlength⟩, transferId, h0, _, hvalid, offset, h16,
      rfl⟩
    rw [← hlength] at h24 hlong
    refine ⟨hvalid, ⟨?_, hlong⟩, ?_, rfl⟩
    · intro hnil
      replace hnil : payload.drop fileChunkHeaderLen = [] := hnil
      rw [hnil] at hlength
      exact hzero (UInt32.toNat_inj.mp hlength.symm)
    · simp only [FileChunk.header, FieldsAt, length_toBeBytes, transferId.property]
      exact ⟨h0, h16, h24, trivial⟩
  · rintro ⟨hvalid, ⟨hempty, hlong⟩, hfields, hdata⟩
    have hlimit : maxFileChunkBytes < 2 ^ 32 := by decide
    have hdeclared : (UInt32.ofNat chunk.data.length).toNat = chunk.data.length :=
      UInt32.toNat_ofNat_of_lt (lt_of_le_of_lt hlong hlimit)
    have hpos := List.length_pos_of_ne_nil hempty
    have hlength := congrArg List.length hdata
    rw [List.length_drop] at hlength
    simp only [FileChunk.header, FieldsAt, length_toBeBytes, chunk.transferId.property] at hfields
    obtain ⟨h0, h16, h24, -⟩ := hfields
    refine ⟨by omega, UInt32.ofNat chunk.data.length, by rw [hdeclared]; exact h24,
      ⟨?_, by omega, by rw [hdata, hdeclared]⟩, _, h0, (), hvalid, _, h16, by rw [hdata]⟩
    intro hzero
    rw [hzero] at hdeclared
    exact absurd hdeclared.symm hpos.ne'

theorem encodeFileCancel_eq_ok_iff {transferId : FixedBytes 16} {reason : FileCancelReason}
    {payload : Bytes} :
    encodeFileCancel transferId reason = .ok payload ↔
      validateTransferId transferId = .ok () ∧
      payload = (fileCancelFields transferId reason).flatten := by
  unfold encodeFileCancel
  rw [bind_eq_ok]
  constructor
  · rintro ⟨_, hvalid, hpayload⟩
    cases hpayload
    exact ⟨hvalid, rfl⟩
  · rintro ⟨hvalid, rfl⟩
    exact ⟨(), hvalid, rfl⟩

theorem length_fileCancelFields (transferId : FixedBytes 16) (reason : FileCancelReason) :
    (fileCancelFields transferId reason).flatten.length = fileCancelPayloadLen := by
  simp [fileCancelFields, transferId.property, fileCancelPayloadLen]

theorem decodeFileCancel_eq_ok_iff {transferId : FixedBytes 16} {reason : FileCancelReason}
    {payload : Bytes} :
    (decodeFileCancel payload).run = some (.ok (transferId, reason)) ↔
      encodeFileCancel transferId reason = .ok payload := by
  rw [encodeFileCancel_eq_ok_iff]
  simp only [decodeFileCancel, run_check_eq_ok, run_bind_eq_ok, run_liftM_eq_ok, run_except_eq_ok,
    run_pure_eq_ok, readU16_eq_some_iff, readFixed_eq_some_iff,
    FileCancelReason.tryFrom_eq_ok_iff, not_not, Prod.mk.injEq]
  constructor
  · rintro ⟨hlength, _, h18, rfl, id, h0, _, hvalid, _, h16, _, rfl, rfl, rfl⟩
    refine ⟨hvalid, FieldsAt.eq_flatten ?_ (hlength.trans (length_fileCancelFields _ _).symm)⟩
    simp only [fileCancelFields, FieldsAt, length_toBeBytes, id.property]
    exact ⟨h0, h16, h18, trivial⟩
  · rintro ⟨hvalid, rfl⟩
    have hfields := fieldsAt_flatten (fileCancelFields transferId reason)
    have hlength := length_fileCancelFields transferId reason
    generalize (fileCancelFields transferId reason).flatten = payload at hfields hlength
    simp only [fileCancelFields, FieldsAt, length_toBeBytes, transferId.property] at hfields
    obtain ⟨h0, h16, h18, -⟩ := hfields
    exact ⟨hlength, 0, h18, rfl, _, h0, (), hvalid, _, h16, _, rfl, rfl, rfl⟩

/-! ## Clipboard text -/

theorem encodeClipboardText_eq_ok_iff {originId : FixedBytes 16} {changeSequence : UInt64}
    {text : String} {maxBytes : Nat} {payload : Bytes} :
    encodeClipboardText originId changeSequence text maxBytes = .ok payload ↔
      validateOriginAndSequence originId changeSequence = .ok () ∧
      (text.utf8ByteSize ≤ maxBytes ∧ text.utf8ByteSize ≤ u32Max) ∧
      payload = (clipboardHeader originId changeSequence text.utf8ByteSize).flatten ++
        utf8Bytes text := by
  simp only [encodeClipboardText, bind_eq_ok, check_eq_ok, not_or, Nat.not_lt]
  constructor
  · rintro ⟨_, hvalid, hsize, hpayload⟩
    cases hpayload
    exact ⟨hvalid, hsize, rfl⟩
  · rintro ⟨hvalid, hsize, rfl⟩
    exact ⟨(), hvalid, hsize, rfl⟩

theorem length_clipboardHeader (originId : FixedBytes 16) (changeSequence : UInt64)
    (length : Nat) :
    (clipboardHeader originId changeSequence length).flatten.length = clipboardHeaderLen := by
  simp [clipboardHeader, originId.property, clipboardHeaderLen]

theorem decodeClipboardText_eq_ok_iff {clipboard : ClipboardText} {maxBytes : Nat}
    {payload : Bytes} :
    (decodeClipboardText payload maxBytes).run = some (.ok clipboard) ↔
      encodeClipboardText clipboard.originId clipboard.changeSequence clipboard.text maxBytes =
        .ok payload := by
  rw [encodeClipboardText_eq_ok_iff, ← fieldsAt_and_drop_iff (length_clipboardHeader _ _ _)]
  simp only [decodeClipboardText, run_check_eq_ok, run_bind_eq_ok, run_liftM_eq_ok,
    run_except_eq_ok, run_pure_eq_ok, readU8_eq_some_iff, readU16_eq_some_iff, readU32_eq_some_iff,
    readU64_eq_some_iff, readFixed_eq_some_iff, parseText_eq_ok_iff, not_not, not_or, Nat.not_lt]
  constructor
  · rintro ⟨-, originId, h0, changeSequence, h16, _, hvalid, _, h24, rfl, _, h25, _, h26,
      ⟨rfl, rfl⟩, declaredLen, h28, ⟨hlength, hlong⟩, text, htext, rfl⟩
    have hdeclared : declaredLen.toNat = text.utf8ByteSize := by
      rw [hlength, htext, length_utf8Bytes]
    have hfits : declaredLen.toNat ≤ u32Max := by
      have := declaredLen.toNat_lt
      unfold u32Max
      omega
    rw [hdeclared] at h28 hlong hfits
    refine ⟨hvalid, ⟨hlong, hfits⟩, ?_, htext⟩
    simp only [clipboardHeader, FieldsAt, length_toBeBytes, originId.property]
    exact ⟨h0, h16, h24, h25, h26, h28, trivial⟩
  · rintro ⟨hvalid, ⟨hlong, hfits⟩, hfields, htext⟩
    have hdeclared : (UInt32.ofNat clipboard.text.utf8ByteSize).toNat =
        clipboard.text.utf8ByteSize := by
      refine UInt32.toNat_ofNat_of_lt (lt_of_le_of_lt hfits (by decide))
    have hpayload := (fieldsAt_and_drop_iff (length_clipboardHeader _ _ _)).mp ⟨hfields, htext⟩
    have hlength := congrArg List.length hpayload
    rw [List.length_append, length_clipboardHeader] at hlength
    simp only [clipboardHeader, FieldsAt, length_toBeBytes, clipboard.originId.property] at hfields
    obtain ⟨h0, h16, h24, h25, h26, h28, -⟩ := hfields
    exact ⟨by omega, _, h0, _, h16, (), hvalid, formatUtf8Text, h24, rfl, 0, h25, 0, h26,
      ⟨rfl, rfl⟩, UInt32.ofNat clipboard.text.utf8ByteSize, by rw [hdeclared]; exact h28,
      ⟨by rw [htext, hdeclared, length_utf8Bytes], by rw [hdeclared]; exact hlong⟩, _, htext, rfl⟩

/-- Each of the four decoders accepts a payload exactly when the encoder writes it for the
value that is returned. -/
theorem file_codecs_exact :
    (∀ metadata maxFileBytes payload,
      encodeFileMetadata metadata maxFileBytes = .ok payload ↔
        (decodeFileMetadata payload maxFileBytes).run = some (.ok metadata)) ∧
    (∀ chunk payload, encodeFileChunk chunk = .ok payload ↔
      (decodeFileChunk payload).run = some (.ok chunk)) ∧
    (∀ transferId reason payload, encodeFileCancel transferId reason = .ok payload ↔
      (decodeFileCancel payload).run = some (.ok (transferId, reason))) ∧
    (∀ originId changeSequence text maxBytes payload,
      encodeClipboardText originId changeSequence text maxBytes = .ok payload ↔
        (decodeClipboardText payload maxBytes).run =
          some (.ok { originId := originId, changeSequence := changeSequence, text := text })) :=
  ⟨fun _ _ _ => decodeFileMetadata_eq_ok_iff.symm, fun _ _ => decodeFileChunk_eq_ok_iff.symm,
    fun _ _ _ => decodeFileCancel_eq_ok_iff.symm,
    fun originId changeSequence text _ _ =>
      (@decodeClipboardText_eq_ok_iff ⟨originId, changeSequence, text⟩ _ _).symm⟩

example :
    (decodeFileChunk (List.replicate 16 1 ++ toBeBytes 8 2 ++ toBeBytes 4 3 ++ [5, 6, 7])).run =
      some (.ok { transferId := .replicate 16 1, offset := 2, data := [5, 6, 7] }) := by
  decide

end HbbCommon.Transport
