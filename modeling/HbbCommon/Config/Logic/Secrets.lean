import HbbCommon.Base.Base64
import HbbCommon.Config.Secretbox

/-!
# Secrets at rest

A value that is encrypted and decrypted is the value it was, and what earlier versions wrote is
still read. The two formats are told apart by opening: a box opens as a whole and under its own
nonce and key only, so what stands behind the bytes of a nonce in an old box is nothing that opens.
-/

namespace HbbCommon.Config

open HbbCommon.Base

namespace Sodium

/-- Ideal libraries: decoding undoes encoding, and opening succeeds for what was sealed with that
nonce and key, and for nothing else. -/
structure Ideal (lib : Sodium) : Prop where
  decode_of_encode : ∀ data, lib.base64Decode (utf8Bytes (lib.base64Encode data)) = some data
  decode_empty : lib.base64Decode [] = some []
  macBytes_le : ∀ data nonce key, data.length + macBytes ≤ (lib.sealBox data nonce key).length
  open_seal : ∀ data nonce key, lib.openBox (lib.sealBox data nonce key) nonce key = some data
  seal_of_open : ∀ box nonce key data, lib.openBox box nonce key = some data →
    box = lib.sealBox data nonce key
  /-- A box that was cut, or one of another nonce or key, does not open. -/
  open_only : ∀ data nonce key cut nonce' key',
    (lib.openBox ((lib.sealBox data nonce key).drop cut) nonce' key').isSome = true →
      cut = 0 ∧ nonce' = nonce ∧ key' = key

variable {lib : Sodium} {source : KeySource} {data : Bytes} {nonce : Nonce} {key : Key}

/-! ## Payloads -/

/-- What opens as a payload with a format byte has a box behind its nonce. -/
theorem openFormatV1_eq_some {payload plain : Bytes}
    (h : lib.openFormatV1 payload key = some plain) :
    ∃ nonce, lib.openBox (payload.drop 25) nonce key = some plain := by
  unfold openFormatV1 at h
  split at h
  · cases h
  · split at h
    · exact ⟨_, h⟩
    · cases h

/-- An old box is no payload with a format byte, whatever its first byte is. -/
theorem Ideal.openFormatV1_seal (h : lib.Ideal) (key' : Key) :
    lib.openFormatV1 (lib.sealBox data nonce key) key' = none := by
  rw [Option.eq_none_iff_forall_ne_some]
  intro plain hopen
  obtain ⟨nonce', hbox⟩ := openFormatV1_eq_some hopen
  have honly := h.open_only data nonce key 25 nonce' key' (by rw [hbox]; rfl)
  exact absurd honly.1 (by decide)

theorem Ideal.openFormatV1_sealed (h : lib.Ideal) (key' : Key) :
    lib.openFormatV1 (formatV1 :: nonce.val ++ lib.sealBox data nonce key) key' =
      lib.openBox (lib.sealBox data nonce key) nonce key' := by
  have hlength := h.macBytes_le data nonce key
  have hnonce : nonce.val.length = 24 := nonce.property
  have hall : formatV1 = formatV1 ∧
      24 + macBytes ≤ (nonce.val ++ lib.sealBox data nonce key).length := by
    refine ⟨rfl, ?_⟩
    rw [List.length_append]
    omega
  rw [List.cons_append, openFormatV1, dif_pos hall]
  congr 1
  · exact List.drop_left' hnonce
  · exact Subtype.ext (List.take_left' hnonce)

/-- A payload with a format byte is no old box. -/
theorem Ideal.openBox_sealed (h : lib.Ideal) (key' : Key) :
    lib.openBox (formatV1 :: nonce.val ++ lib.sealBox data nonce key) zeroNonce key' = none := by
  rw [Option.eq_none_iff_forall_ne_some]
  intro plain hopen
  have hseal := h.seal_of_open _ _ _ _ hopen
  have hbox : (lib.sealBox plain zeroNonce key').drop 25 = lib.sealBox data nonce key := by
    rw [← hseal, List.cons_append, List.drop_succ_cons]
    exact List.drop_left' nonce.property
  have honly := h.open_only plain zeroNonce key' 25 nonce key
    (by rw [hbox, h.open_seal]; rfl)
  exact absurd honly.1 (by decide)

/-- Under another key a box does not open. -/
theorem Ideal.openBox_other (h : lib.Ideal) {key' : Key} (hkey : key' ≠ key) (nonce' : Nonce) :
    lib.openBox (lib.sealBox data nonce key) nonce' key' = none := by
  rw [Option.eq_none_iff_forall_ne_some]
  intro plain hopen
  exact hkey (h.open_only data nonce key 0 nonce' key' (by rw [List.drop_zero, hopen]; rfl)).2.2

/-- `payload` is a bare box under the zero nonce, or has a format byte and a nonce. -/
def IsPayload (lib : Sodium) (data : Bytes) (key : Key) (payload : Bytes) : Prop :=
  payload = lib.sealBox data zeroNonce key ∨
    ∃ nonce : Nonce, payload = formatV1 :: nonce.val ++ lib.sealBox data nonce key

theorem Ideal.openSecretboxPayload_payload (h : lib.Ideal) {payload : Bytes}
    (hpayload : lib.IsPayload data key payload) :
    lib.openSecretboxPayload payload key = some data := by
  unfold openSecretboxPayload
  rcases hpayload with rfl | ⟨nonce, rfl⟩
  · rw [h.openFormatV1_seal, h.open_seal]
  · rw [h.openFormatV1_sealed, h.open_seal]

theorem Ideal.openSecretboxPayload_other (h : lib.Ideal) {payload : Bytes} {key' : Key}
    (hpayload : lib.IsPayload data key payload) (hkey : key' ≠ key) :
    lib.openSecretboxPayload payload key' = none := by
  unfold openSecretboxPayload
  rcases hpayload with rfl | ⟨nonce, rfl⟩
  · rw [h.openFormatV1_seal, h.openBox_other hkey]
  · rw [h.openFormatV1_sealed, h.openBox_other hkey, h.openBox_sealed]

/-- Where the id of the machine is not available the key is made of the public key. -/
theorem getUuid_of_mobile {pk : Bytes} (hmobile : source.mobile = true)
    (hpk : source.publicKey = some pk) : source.getUuid = pk := by
  rw [KeySource.getUuid, source.mobile_uid hmobile, hpk]
  rfl

/-- One of the keys that are tried. -/
def Tried (source : KeySource) (key : Key) : Prop :=
  key = keyOf source.getUuid ∨ ∃ pk, source.publicKey = some pk ∧ key = keyOf pk

/-- What was sealed under one of the keys is opened. -/
theorem Ideal.symmetricCrypt_payload (h : lib.Ideal) {payload : Bytes}
    (hkey : Tried source key) (hpayload : lib.IsPayload data key payload) (drawn : Nat) :
    lib.symmetricCrypt source drawn payload false = some data := by
  unfold symmetricCrypt
  simp only [Bool.false_eq_true, if_false]
  by_cases huuid : key = keyOf source.getUuid
  · rw [← huuid, h.openSecretboxPayload_payload hpayload]
  · obtain ⟨pk, hpk, rfl⟩ := hkey.resolve_left huuid
    have hne : pk ≠ source.getUuid := fun heq => huuid (congrArg keyOf heq)
    have hmobile : ¬ source.mobile = true := fun hm => hne (getUuid_of_mobile hm hpk).symm
    rw [h.openSecretboxPayload_other hpayload (Ne.symm huuid)]
    simp only [hpk, if_neg hmobile, if_pos hne]
    exact h.openSecretboxPayload_payload hpayload

/-! ## Encrypted values -/

theorem Ideal.encode_ne_empty (h : lib.Ideal) {payload : Bytes} (hpayload : payload ≠ []) :
    utf8Bytes (lib.base64Encode payload) ≠ [] := by
  intro hnil
  have hdecode := h.decode_of_encode payload
  rw [hnil, h.decode_empty] at hdecode
  exact hpayload (Option.some.inj hdecode).symm

theorem Ideal.payload_length (h : lib.Ideal) {payload : Bytes}
    (hpayload : lib.IsPayload data key payload) : macBytes ≤ payload.length := by
  rcases hpayload with rfl | ⟨nonce, rfl⟩
  · have := h.macBytes_le data zeroNonce key
    omega
  · have := h.macBytes_le data nonce key
    rw [List.length_append]
    omega

theorem Ideal.payload_ne_nil (h : lib.Ideal) {payload : Bytes}
    (hpayload : lib.IsPayload data key payload) : payload ≠ [] := by
  rintro rfl
  have hlength := h.payload_length hpayload
  exact absurd hlength (by decide)

/-- The text of a payload looks encrypted. -/
theorem Ideal.isPayload_encode (h : lib.Ideal) {payload : Bytes}
    (hpayload : lib.IsPayload data key payload) :
    lib.isPayload (utf8Bytes (lib.base64Encode payload)) = true := by
  unfold isPayload
  rw [h.decode_of_encode]
  exact decide_eq_true (h.payload_length hpayload)

theorem Ideal.decrypt_encode (h : lib.Ideal) (hkey : Tried source key) {payload : Bytes}
    (hpayload : lib.IsPayload data key payload) :
    lib.decrypt source (utf8Bytes (lib.base64Encode payload)) = some data := by
  unfold decrypt
  rw [if_pos (h.encode_ne_empty (h.payload_ne_nil hpayload)), h.decode_of_encode, Option.bind_some]
  exact h.symmetricCrypt_payload hkey hpayload 0

/-- What `encrypt` makes of a value. -/
theorem encrypt_eq (lib : Sodium) (source : KeySource) (drawn : Nat) {v : Bytes} (hv : v ≠ []) :
    ∃ payload, lib.IsPayload v (keyOf source.getUuid) payload ∧
      lib.encrypt source drawn v = some (lib.base64Encode payload) := by
  refine ⟨_, .inr ⟨lib.genNonce drawn, rfl⟩, ?_⟩
  unfold encrypt
  rw [if_pos hv]
  rfl

variable {drawn maxLen : Nat} {s : String} {v : Bytes}

theorem behindVersionVec_append {body : Bytes} (h : body ≠ []) :
    behindVersionVec (48 :: 48 :: body) = some body := by
  obtain ⟨c, rest, rfl⟩ := List.exists_cons_of_ne_nil h
  rfl

theorem Ideal.encode_ne_empty_text (h : lib.Ideal) {payload : Bytes} (hpayload : payload ≠ []) :
    lib.base64Encode payload ≠ "" := by
  intro hempty
  refine h.encode_ne_empty hpayload ?_
  rw [hempty]
  rfl

/-- The text of a payload is decrypted, and need not be stored again. -/
theorem Ideal.decryptStr_payload (h : lib.Ideal) (hkey : Tried source key) {payload : Bytes}
    (hpayload : lib.IsPayload (utf8Bytes s) key payload) :
    lib.decryptStrOrOriginal source ("00" ++ lib.base64Encode payload) "00" = (s, true, false) := by
  have hbody := behindVersion_append (h.encode_ne_empty_text (h.payload_ne_nil hpayload))
  have hdecrypt : (lib.ops source).decrypt (lib.base64Encode payload) = some s := by
    show (lib.decrypt source (utf8Bytes (lib.base64Encode payload))).map fromUtf8Lossy = some s
    rw [h.decrypt_encode hkey hpayload, Option.map_some, fromUtf8Lossy_utf8Bytes]
  unfold decryptStrOrOriginal CryptOps.decryptStrOrOriginal
  simp only [hbody]
  show (match (lib.ops source).decrypt (lib.base64Encode payload) with
    | some plain => (plain, true, decide ("00" ≠ "00"))
    | none => _) = _
  rw [hdecrypt]
  rfl

theorem Ideal.decryptVec_payload (h : lib.Ideal) (hkey : Tried source key) {payload : Bytes}
    (hpayload : lib.IsPayload v key payload) :
    lib.decryptVecOrOriginal source (48 :: 48 :: utf8Bytes (lib.base64Encode payload)) =
      (v, true, false) := by
  have hbody := behindVersionVec_append (h.encode_ne_empty (h.payload_ne_nil hpayload))
  have hdecrypt : (lib.ops source).decryptVec (utf8Bytes (lib.base64Encode payload)) = some v :=
    h.decrypt_encode hkey hpayload
  unfold decryptVecOrOriginal CryptOps.decryptVecOrOriginal
  simp only [hbody]
  rw [hdecrypt]
  rfl

theorem Ideal.isEncrypted_payload (h : lib.Ideal) {payload : Bytes}
    (hpayload : lib.IsPayload data key payload) :
    lib.isEncrypted source ("00" ++ lib.base64Encode payload) = true := by
  have hbody := behindVersion_append (h.encode_ne_empty_text (h.payload_ne_nil hpayload))
  unfold isEncrypted CryptOps.isEncrypted
  rw [hbody]
  exact h.isPayload_encode hpayload

theorem Ideal.isEncryptedVec_payload (h : lib.Ideal) {payload : Bytes}
    (hpayload : lib.IsPayload data key payload) :
    lib.isEncryptedVec source (48 :: 48 :: utf8Bytes (lib.base64Encode payload)) = true := by
  have hbody := behindVersionVec_append (h.encode_ne_empty (h.payload_ne_nil hpayload))
  unfold isEncryptedVec CryptOps.isEncryptedVec
  rw [hbody]
  exact h.isPayload_encode hpayload

/-! ## Encryption -/

theorem encryptStr_encrypted (hs : lib.isEncrypted source s = true) :
    lib.encryptStrOrOriginal source drawn s "00" maxLen = s := by
  have hs' : (lib.ops source).isEncrypted s = true := hs
  unfold encryptStrOrOriginal CryptOps.encryptStrOrOriginal
  rw [if_pos hs']
  rfl

theorem encryptVec_encrypted (hv : lib.isEncryptedVec source v = true) :
    lib.encryptVecOrOriginal source drawn v maxLen = v := by
  have hv' : (lib.ops source).isEncryptedVec v = true := hv
  unfold encryptVecOrOriginal CryptOps.encryptVecOrOriginal
  rw [if_pos hv']
  rfl

/-- What is not empty, not too long and does not look encrypted is encrypted. -/
theorem encryptStr_plain (drawn : Nat) (hne : s ≠ "") (hplain : lib.isEncrypted source s = false)
    (hlength : s.length ≤ maxLen) :
    ∃ payload, lib.IsPayload (utf8Bytes s) (keyOf source.getUuid) payload ∧
      lib.encryptStrOrOriginal source drawn s "00" maxLen = "00" ++ lib.base64Encode payload := by
  have hbytes : utf8Bytes s ≠ [] := by
    intro hnil
    have hsize : (utf8Bytes s).length = 0 := by rw [hnil]; rfl
    rw [length_utf8Bytes] at hsize
    exact hne (String.utf8ByteSize_eq_zero_iff.mp hsize)
  obtain ⟨payload, hpayload, hencrypt⟩ := encrypt_eq lib source drawn hbytes
  refine ⟨payload, hpayload, ?_⟩
  have hplain' : ¬ (lib.ops source).isEncrypted s = true := by
    rw [show (lib.ops source).isEncrypted s = false from hplain]
    decide
  unfold encryptStrOrOriginal CryptOps.encryptStrOrOriginal
  rw [if_neg hplain', if_neg (Nat.not_lt.mpr hlength), if_pos ⟨rfl, hne⟩]
  show "00" ++ (lib.encrypt source drawn (utf8Bytes s)).getD "" = _
  rw [hencrypt]
  rfl

theorem encryptVec_plain (drawn : Nat) (hne : v ≠ []) (hplain : lib.isEncryptedVec source v = false)
    (hlength : v.length ≤ maxLen) :
    ∃ payload, lib.IsPayload v (keyOf source.getUuid) payload ∧
      lib.encryptVecOrOriginal source drawn v maxLen =
        48 :: 48 :: utf8Bytes (lib.base64Encode payload) := by
  obtain ⟨payload, hpayload, hencrypt⟩ := encrypt_eq lib source drawn hne
  refine ⟨payload, hpayload, ?_⟩
  have hplain' : ¬ (lib.ops source).isEncryptedVec v = true := by
    rw [show (lib.ops source).isEncryptedVec v = false from hplain]
    decide
  unfold encryptVecOrOriginal CryptOps.encryptVecOrOriginal
  rw [if_neg hplain', if_neg (Nat.not_lt.mpr hlength), if_pos hne]
  show 48 :: 48 :: utf8Bytes ((lib.encrypt source drawn v).getD "") = _
  rw [hencrypt]
  rfl

/-! ## Decryption of what is not encrypted -/

/-- A text that is not decrypted is left as it is. -/
theorem decryptStr_original (hfailed : (lib.decryptStrOrOriginal source s "00").2.1 = false) :
    (lib.decryptStrOrOriginal source s "00").1 = s := by
  unfold decryptStrOrOriginal CryptOps.decryptStrOrOriginal at hfailed ⊢
  cases hbody : behindVersion s with
  | none => rfl
  | some body =>
      simp only [hbody] at hfailed
      change (Id.run (match (lib.ops source).decrypt body with
        | some plain => (plain, true, decide ("00" ≠ "00"))
        | none => _)).2.1 = false at hfailed
      change (Id.run (match (lib.ops source).decrypt body with
        | some plain => (plain, true, decide ("00" ≠ "00"))
        | none => _)).1 = s
      cases hdecrypt : (lib.ops source).decrypt body with
      | none => rfl
      | some plain =>
          rw [hdecrypt] at hfailed
          cases hfailed

theorem decryptVec_original (hfailed : (lib.decryptVecOrOriginal source v).2.1 = false) :
    (lib.decryptVecOrOriginal source v).1 = v := by
  unfold decryptVecOrOriginal CryptOps.decryptVecOrOriginal at hfailed ⊢
  cases hbody : behindVersionVec v with
  | none => rfl
  | some body =>
      simp only [hbody] at hfailed
      dsimp only
      cases hdecrypt : (lib.ops source).decryptVec body with
      | none => rfl
      | some plain =>
          rw [hdecrypt] at hfailed
          cases hfailed

/-! ## The round trip -/

/-- What is not empty and does not look encrypted is there again, decrypted. -/
theorem Ideal.decryptStr_plain (h : lib.Ideal) (hne : s ≠ "")
    (hplain : lib.isEncrypted source s = false) (hlength : s.length ≤ maxLen) :
    lib.decryptStrOrOriginal source (lib.encryptStrOrOriginal source drawn s "00" maxLen) "00" =
      (s, true, false) := by
  obtain ⟨payload, hpayload, heq⟩ := encryptStr_plain drawn hne hplain hlength
  rw [heq]
  exact h.decryptStr_payload (.inl rfl) hpayload

theorem Ideal.decryptVec_plain (h : lib.Ideal) (hne : v ≠ [])
    (hplain : lib.isEncryptedVec source v = false) (hlength : v.length ≤ maxLen) :
    lib.decryptVecOrOriginal source (lib.encryptVecOrOriginal source drawn v maxLen) =
      (v, true, false) := by
  obtain ⟨payload, hpayload, heq⟩ := encryptVec_plain drawn hne hplain hlength
  rw [heq]
  exact h.decryptVec_payload (.inl rfl) hpayload

theorem Ideal.decryptStr_encryptStr (h : lib.Ideal) (hlength : s.length ≤ maxLen)
    (hclosed : (lib.decryptStrOrOriginal source s "00").2.1 = false) :
    (lib.decryptStrOrOriginal source
      (lib.encryptStrOrOriginal source drawn s "00" maxLen) "00").1 = s := by
  by_cases hlooks : lib.isEncrypted source s = true
  · rw [encryptStr_encrypted hlooks]
    exact decryptStr_original hclosed
  · by_cases hempty : s = ""
    · subst hempty
      rfl
    · rw [h.decryptStr_plain hempty (Bool.eq_false_iff.mpr hlooks) hlength]

theorem Ideal.decryptVec_encryptVec (h : lib.Ideal) (hlength : v.length ≤ maxLen)
    (hclosed : (lib.decryptVecOrOriginal source v).2.1 = false) :
    (lib.decryptVecOrOriginal source
      (lib.encryptVecOrOriginal source drawn v maxLen)).1 = v := by
  by_cases hlooks : lib.isEncryptedVec source v = true
  · rw [encryptVec_encrypted hlooks]
    exact decryptVec_original hclosed
  · by_cases hempty : v = []
    · subst hempty
      rfl
    · rw [h.decryptVec_plain hempty (Bool.eq_false_iff.mpr hlooks) hlength]

/-- What was encrypted is not encrypted again. -/
theorem Ideal.encryptStr_encryptStr (h : lib.Ideal) (hlength : s.length ≤ maxLen)
    (drawn' maxLen' : Nat) :
    lib.encryptStrOrOriginal source drawn'
        (lib.encryptStrOrOriginal source drawn s "00" maxLen) "00" maxLen' =
      lib.encryptStrOrOriginal source drawn s "00" maxLen := by
  by_cases hlooks : lib.isEncrypted source s = true
  · rw [encryptStr_encrypted hlooks, encryptStr_encrypted hlooks]
  · by_cases hempty : s = ""
    · subst hempty
      rfl
    · obtain ⟨payload, hpayload, heq⟩ :=
        encryptStr_plain drawn hempty (Bool.eq_false_iff.mpr hlooks) hlength
      rw [heq]
      exact encryptStr_encrypted (h.isEncrypted_payload hpayload)

theorem Ideal.encryptVec_encryptVec (h : lib.Ideal) (hlength : v.length ≤ maxLen)
    (drawn' maxLen' : Nat) :
    lib.encryptVecOrOriginal source drawn'
        (lib.encryptVecOrOriginal source drawn v maxLen) maxLen' =
      lib.encryptVecOrOriginal source drawn v maxLen := by
  by_cases hlooks : lib.isEncryptedVec source v = true
  · rw [encryptVec_encrypted hlooks, encryptVec_encrypted hlooks]
  · by_cases hempty : v = []
    · subst hempty
      rfl
    · obtain ⟨payload, hpayload, heq⟩ :=
        encryptVec_plain drawn hempty (Bool.eq_false_iff.mpr hlooks) hlength
      rw [heq]
      exact encryptVec_encrypted (h.isEncryptedVec_payload hpayload)

/-- What earlier versions may have stored: a bare box under the zero nonce and one of the keys,
or a payload under the key of the public key. -/
def IsLegacy (lib : Sodium) (source : KeySource) (data payload : Bytes) : Prop :=
  payload = lib.sealBox data zeroNonce (keyOf source.getUuid) ∨
    ∃ pk, source.publicKey = some pk ∧ lib.IsPayload data (keyOf pk) payload

theorem IsLegacy.exists_key {payload : Bytes} (h : lib.IsLegacy source data payload) :
    ∃ key, Tried source key ∧ lib.IsPayload data key payload := by
  rcases h with rfl | ⟨pk, hpk, hpayload⟩
  · exact ⟨_, .inl rfl, .inl rfl⟩
  · exact ⟨_, .inr ⟨pk, hpk, rfl⟩, hpayload⟩

/-- With ideal libraries every text and every byte string of bounded length that does not open
itself is there again after encryption and decryption; what looks encrypted, and so what was
encrypted, is not encrypted again; what is not empty and does not look encrypted is decrypted, with
no need to store it; and what earlier versions stored is decrypted, whatever its first byte. -/
theorem secrets_round_trip (h : lib.Ideal) (source : KeySource) (drawn maxLen : Nat) :
    (∀ s, s.length ≤ maxLen → (lib.decryptStrOrOriginal source s "00").2.1 = false →
      (lib.decryptStrOrOriginal source
        (lib.encryptStrOrOriginal source drawn s "00" maxLen) "00").1 = s) ∧
    (∀ v, v.length ≤ maxLen → (lib.decryptVecOrOriginal source v).2.1 = false →
      (lib.decryptVecOrOriginal source
        (lib.encryptVecOrOriginal source drawn v maxLen)).1 = v) ∧
    (∀ s, lib.isEncrypted source s = true →
      lib.encryptStrOrOriginal source drawn s "00" maxLen = s) ∧
    (∀ v, lib.isEncryptedVec source v = true →
      lib.encryptVecOrOriginal source drawn v maxLen = v) ∧
    (∀ s drawn' maxLen', s.length ≤ maxLen →
      lib.encryptStrOrOriginal source drawn'
          (lib.encryptStrOrOriginal source drawn s "00" maxLen) "00" maxLen' =
        lib.encryptStrOrOriginal source drawn s "00" maxLen) ∧
    (∀ v drawn' maxLen', v.length ≤ maxLen →
      lib.encryptVecOrOriginal source drawn'
          (lib.encryptVecOrOriginal source drawn v maxLen) maxLen' =
        lib.encryptVecOrOriginal source drawn v maxLen) ∧
    (∀ s, s ≠ "" → lib.isEncrypted source s = false → s.length ≤ maxLen →
      lib.decryptStrOrOriginal source
        (lib.encryptStrOrOriginal source drawn s "00" maxLen) "00" = (s, true, false)) ∧
    (∀ v, v ≠ [] → lib.isEncryptedVec source v = false → v.length ≤ maxLen →
      lib.decryptVecOrOriginal source
        (lib.encryptVecOrOriginal source drawn v maxLen) = (v, true, false)) ∧
    (∀ s payload, lib.IsLegacy source (utf8Bytes s) payload →
      lib.decryptStrOrOriginal source ("00" ++ lib.base64Encode payload) "00" =
        (s, true, false)) ∧
    ∀ v payload, lib.IsLegacy source v payload →
      lib.decryptVecOrOriginal source
        (48 :: 48 :: utf8Bytes (lib.base64Encode payload)) = (v, true, false) := by
  refine ⟨fun s hlength hclosed => h.decryptStr_encryptStr hlength hclosed,
    fun v hlength hclosed => h.decryptVec_encryptVec hlength hclosed,
    fun s hs => encryptStr_encrypted hs, fun v hv => encryptVec_encrypted hv,
    fun s drawn' maxLen' hlength => h.encryptStr_encryptStr hlength drawn' maxLen',
    fun v drawn' maxLen' hlength => h.encryptVec_encryptVec hlength drawn' maxLen',
    fun s hne hplain hlength => h.decryptStr_plain hne hplain hlength,
    fun v hne hplain hlength => h.decryptVec_plain hne hplain hlength, ?_, ?_⟩
  · intro s payload hlegacy
    obtain ⟨key, hkey, hpayload⟩ := hlegacy.exists_key
    exact h.decryptStr_payload hkey hpayload
  · intro v payload hlegacy
    obtain ⟨key, hkey, hpayload⟩ := hlegacy.exists_key
    exact h.decryptVec_payload hkey hpayload

/-! ## A box that shows what it was sealed with

Every byte is spread over two that are not 1, so a 1 is found at the start of a box only. -/

def spread (b : UInt8) : Bytes := [UInt8.ofNat (b.toNat / 16 + 2), UInt8.ofNat (b.toNat % 16 + 2)]

def gather : Bytes → Bytes
  | x :: y :: rest => UInt8.ofNat ((x.toNat - 2) * 16 + (y.toNat - 2)) :: gather rest
  | _ => []

theorem toNat_half {n : Nat} (h : n < 16) : (UInt8.ofNat (n + 2)).toNat = n + 2 := by
  rw [UInt8.toNat_ofNat']
  omega

theorem gather_spread (bytes : Bytes) : gather (bytes.flatMap spread) = bytes := by
  induction bytes with
  | nil => rfl
  | cons b rest ih =>
      have hb := b.toNat_lt
      have hbyte : (b.toNat / 16 + 2 - 2) * 16 + (b.toNat % 16 + 2 - 2) = b.toNat := by omega
      simp only [List.flatMap_cons, spread, List.cons_append, List.nil_append, gather]
      rw [toNat_half (show b.toNat / 16 < 16 by omega), toNat_half (show b.toNat % 16 < 16 by omega),
        hbyte, UInt8.ofNat_toNat]
      exact congrArg (b :: ·) ih

theorem formatV1_not_mem_spread (bytes : Bytes) : formatV1 ∉ bytes.flatMap spread := by
  intro hmem
  obtain ⟨b, -, hb⟩ := List.mem_flatMap.mp hmem
  have hlt := b.toNat_lt
  have hne : ∀ {n : Nat}, n < 16 → formatV1 ≠ UInt8.ofNat (n + 2) := by
    intro n hn heq
    have hnat := congrArg UInt8.toNat heq
    rw [toNat_half hn] at hnat
    exact absurd hnat (by change ¬ 1 = n + 2; omega)
  rcases List.mem_cons.mp hb with hfirst | hlast
  · exact hne (show b.toNat / 16 < 16 by omega) hfirst
  · exact hne (show b.toNat % 16 < 16 by omega) (List.mem_singleton.mp hlast)

def showing : Sodium where
  base64Encode data := .ofList (Base64.encode data)
  base64Decode v := (fromUtf8 v).bind (fun text => Base64.decode text.toList)
  genNonce n := ⟨(List.range 24).map (fun i => UInt8.ofNat (n / 256 ^ i)), by simp⟩
  sealBox data nonce key := formatV1 :: (key.val ++ (nonce.val ++ data)).flatMap spread
  openBox box nonce key :=
    let data := (gather box.tail).drop 56
    if box = formatV1 :: (key.val ++ (nonce.val ++ data)).flatMap spread then some data else none

theorem showing_seal_of_open {box : Bytes} (h : showing.openBox box nonce key = some data) :
    box = showing.sealBox data nonce key := by
  simp only [showing] at h
  split at h
  · rename_i hbox
    cases h
    exact hbox
  · cases h

/-- A box tells its key, its nonce and what is in it. -/
theorem showing_seal_inj {data' : Bytes} {nonce' : Nonce} {key' : Key}
    (h : showing.sealBox data nonce key = showing.sealBox data' nonce' key') :
    nonce' = nonce ∧ key' = key := by
  have hbytes := congrArg gather (List.cons.inj h).2
  rw [gather_spread, gather_spread] at hbytes
  obtain ⟨hkey, hrest⟩ := FixedBytes.append_inj hbytes
  obtain ⟨hnonce, -⟩ := FixedBytes.append_inj hrest
  exact ⟨hnonce.symm, hkey.symm⟩

theorem showing_ideal : showing.Ideal where
  decode_of_encode data := by
    show (fromUtf8 (utf8Bytes (.ofList (Base64.encode data)))).bind
      (fun text => Base64.decode text.toList) = some data
    rw [fromUtf8_eq_some_iff.mpr rfl, Option.bind_some, String.toList_ofList, Base64.decode_of_encode]
  decode_empty := by
    show (fromUtf8 (utf8Bytes "")).bind (fun text => Base64.decode text.toList) = some []
    rw [fromUtf8_eq_some_iff.mpr rfl]
    rfl
  macBytes_le data nonce key := by
    have hkey := key.property
    have hnonce := nonce.property
    have hlength : ∀ bytes : Bytes, (bytes.flatMap spread).length = 2 * bytes.length := by
      intro bytes
      induction bytes with
      | nil => rfl
      | cons b rest ih =>
          rw [List.flatMap_cons, List.length_append, ih, List.length_cons]
          show 2 + 2 * rest.length = _
          omega
    show data.length + 16 ≤ (_ :: (key.val ++ (nonce.val ++ data)).flatMap spread).length
    rw [List.length_cons, hlength, List.length_append, List.length_append]
    omega
  open_seal data nonce key := by
    have hgather : (gather ((key.val ++ (nonce.val ++ data)).flatMap spread)).drop 56 = data := by
      rw [gather_spread, ← List.append_assoc]
      refine List.drop_left' ?_
      rw [List.length_append, key.property, nonce.property]
    simp only [showing, List.tail_cons, hgather, if_true]
  seal_of_open box nonce key data h := showing_seal_of_open h
  open_only data nonce key cut nonce' key' h := by
    obtain ⟨plain, hplain⟩ := Option.isSome_iff_exists.mp h
    have hseal := showing_seal_of_open hplain
    cases cut with
    | zero => exact ⟨rfl, showing_seal_inj hseal⟩
    | succ n =>
        have hmem : formatV1 ∈ ((key.val ++ (nonce.val ++ data)).flatMap spread).drop n := by
          rw [show ((key.val ++ (nonce.val ++ data)).flatMap spread).drop n = _ from hseal]
          exact List.mem_cons_self
        exact absurd (List.mem_of_mem_drop hmem) (formatV1_not_mem_spread _)

/-- A desktop with a key pair. -/
def desktop : KeySource where
  mobile := false
  machineUid := some [7, 7]
  publicKey := some [9]
  mobile_uid h := by cases h
  exists_key h := by cases h

/-- Under the public key, with a first byte like a format byte. -/
theorem secrets_round_trip_sample :
    (showing.sealBox (utf8Bytes "pw") zeroNonce (keyOf [9])).head? = some formatV1 ∧
      showing.decryptStrOrOriginal desktop
        ("00" ++ showing.base64Encode (showing.sealBox (utf8Bytes "pw") zeroNonce (keyOf [9]))) "00" =
        ("pw", true, false) :=
  ⟨rfl, (secrets_round_trip showing_ideal desktop 0 128).2.2.2.2.2.2.2.2.1 "pw" _
    (.inr ⟨[9], rfl, .inl rfl⟩)⟩

end Sodium

end HbbCommon.Config
