import HbbCommon.Transport.Hello

/-!
# What a hello proves

The fields of a transcript have fixed lengths, so a transcript determines its role and each
of its fields. A hello that is accepted carries a signature of the transcript that the other
end makes of its own session and exporter; when only the holder of a key signs under it, the
holder made this very hello.
-/

namespace HbbCommon.Transport

open HbbCommon.Base

/-- What the holder of a key states by signing a transcript. -/
inductive Hello
  | client (sessionId : SessionId) (exporter nonce : FixedBytes 32)
  | server (sessionId : SessionId) (exporter clientKey clientNonce nonce : FixedBytes 32)
  deriving DecidableEq

def Hello.transcript (key : FixedBytes 32) : Hello → Bytes
  | .client sessionId exporter nonce => clientTranscript sessionId exporter key nonce
  | .server sessionId exporter clientKey clientNonce nonce =>
      serverTranscript sessionId exporter clientKey clientNonce key nonce

variable {σ : Type} {sign : Sign σ}

/-- What the scheme makes it reads back, and a signature verifies. -/
structure Sign.Lawful (sign : Sign σ) : Prop where
  isPublicKey : ∀ secretKey, sign.isPublicKey (sign.publicKey secretKey) = true
  isSignature : ∀ message secretKey, sign.isSignature (sign.signDetached message secretKey) = true
  verifies : ∀ message secretKey, sign.verifyDetached (sign.signDetached message secretKey)
    message (sign.publicKey secretKey) = true

/-- The signature at the end of the payload verifies only under a key whose holder signed
just that message. -/
def Sign.Unforged (sign : Sign σ) (signed : FixedBytes 32 → Bytes → Prop) (payload : Bytes) :
    Prop :=
  ∀ signature : FixedBytes 64, signature.val <:+ payload → ∀ message key,
    sign.verifyDetached signature message key = true → signed key message

/-! ## Transcripts -/

theorem authTags_ne : clientAuthTag.length = serverAuthTag.length ∧
    clientAuthTag ≠ serverAuthTag := by
  decide +kernel

theorem clientTranscript_injective {sessionId sessionId' : SessionId}
    {exporter publicKey nonce exporter' publicKey' nonce' : FixedBytes 32}
    (h : clientTranscript sessionId exporter publicKey nonce =
      clientTranscript sessionId' exporter' publicKey' nonce') :
    sessionId = sessionId' ∧ exporter = exporter' ∧ publicKey = publicKey' ∧ nonce = nonce' := by
  obtain ⟨hexporter, h⟩ := FixedBytes.append_inj (List.append_cancel_left h)
  obtain ⟨hsession, h⟩ := FixedBytes.append_inj (n := 16) h
  obtain ⟨hkey, hnonce⟩ := FixedBytes.append_inj h
  exact ⟨hsession, hexporter, hkey, Subtype.ext hnonce⟩

theorem serverTranscript_injective {sessionId sessionId' : SessionId}
    {exporter clientKey clientNonce serverKey serverNonce : FixedBytes 32}
    {exporter' clientKey' clientNonce' serverKey' serverNonce' : FixedBytes 32}
    (h : serverTranscript sessionId exporter clientKey clientNonce serverKey serverNonce =
      serverTranscript sessionId' exporter' clientKey' clientNonce' serverKey' serverNonce') :
    sessionId = sessionId' ∧ exporter = exporter' ∧ clientKey = clientKey' ∧
      clientNonce = clientNonce' ∧ serverKey = serverKey' ∧ serverNonce = serverNonce' := by
  obtain ⟨hexporter, h⟩ := FixedBytes.append_inj (List.append_cancel_left h)
  obtain ⟨hsession, h⟩ := FixedBytes.append_inj (n := 16) h
  obtain ⟨hclientKey, h⟩ := FixedBytes.append_inj h
  obtain ⟨hclientNonce, h⟩ := FixedBytes.append_inj h
  obtain ⟨hserverKey, hserverNonce⟩ := FixedBytes.append_inj h
  exact ⟨hsession, hexporter, hclientKey, hclientNonce, hserverKey, Subtype.ext hserverNonce⟩

theorem clientTranscript_ne_serverTranscript (sessionId sessionId' : SessionId)
    (exporter publicKey nonce exporter' clientKey clientNonce serverKey serverNonce :
      FixedBytes 32) :
    clientTranscript sessionId exporter publicKey nonce ≠
      serverTranscript sessionId' exporter' clientKey clientNonce serverKey serverNonce := by
  intro h
  exact authTags_ne.2 (List.append_inj h authTags_ne.1).1

/-- A transcript determines who states what. -/
theorem Hello.transcript_injective {key key' : FixedBytes 32} {hello hello' : Hello}
    (h : hello.transcript key = hello'.transcript key') : key = key' ∧ hello = hello' := by
  cases hello with
  | client sessionId exporter nonce =>
      cases hello' with
      | client sessionId' exporter' nonce' =>
          obtain ⟨rfl, rfl, rfl, rfl⟩ := clientTranscript_injective h
          exact ⟨rfl, rfl⟩
      | server => exact absurd h (clientTranscript_ne_serverTranscript _ _ _ _ _ _ _ _ _ _)
  | server sessionId exporter clientKey clientNonce nonce =>
      cases hello' with
      | client => exact absurd h.symm (clientTranscript_ne_serverTranscript _ _ _ _ _ _ _ _ _ _)
      | server sessionId' exporter' clientKey' clientNonce' nonce' =>
          obtain ⟨rfl, rfl, rfl, rfl, rfl, rfl⟩ := serverTranscript_injective h
          exact ⟨rfl, rfl⟩

/-! ## What is accepted -/

theorem take_eq_iff_slice {payload front : Bytes} (hlength : front.length ≤ payload.length) :
    payload.take front.length = front ↔ slice payload 0 front.length = some front := by
  rw [slice, if_pos (by omega), List.drop_zero, Option.some.injEq]

/-- A client hello is accepted when it is the key, the nonce and a signature that
verifies. -/
theorem parseClientHello_eq_ok_iff {payload : Bytes} {sessionId : SessionId}
    {exporter publicKey nonce : FixedBytes 32} :
    (parseClientHello sign payload sessionId exporter).run = some (.ok (publicKey, nonce)) ↔
      ∃ signature, payload = (clientHelloFields publicKey nonce signature).flatten ∧
        sign.isPublicKey publicKey = true ∧ sign.isSignature signature = true ∧
        sign.verifyDetached signature (clientTranscript sessionId exporter publicKey nonce)
          publicKey = true := by
  have hlength : ∀ signature, (clientHelloFields publicKey nonce signature).flatten.length =
      clientHelloLen := by
    intro signature
    simp [clientHelloFields, publicKey.property, nonce.property, signature.property,
      clientHelloLen]
  simp only [parseClientHello, run_check_eq_ok, run_bind_eq_ok, run_liftM_eq_ok, run_pure_eq_ok,
    readFixed_eq_some_iff, not_or, not_not, Bool.not_eq_false, Prod.mk.injEq]
  constructor
  · rintro ⟨⟨hpayload, hrole⟩, key, h4, n, h36, signature, h68, hkey, hsignature, hverify, rfl, rfl⟩
    refine ⟨signature, FieldsAt.eq_flatten ?_ (hpayload.trans (hlength signature).symm), hkey,
      hsignature, hverify⟩
    simp only [clientHelloFields, FieldsAt, key.property, n.property, signature.property]
    exact ⟨(take_eq_iff_slice (by rw [hpayload]; decide)).mp hrole, h4, h36, h68, trivial⟩
  · rintro ⟨signature, rfl, hkey, hsignature, hverify⟩
    have hfields := fieldsAt_flatten (clientHelloFields publicKey nonce signature)
    simp only [FieldsAt, clientHelloFields, publicKey.property, nonce.property,
      signature.property] at hfields
    obtain ⟨-, h4, h36, h68, -⟩ := hfields
    exact ⟨⟨hlength signature, rfl⟩, _, h4, _, h36, _, h68, hkey, hsignature, hverify, rfl, rfl⟩

theorem parseServerHello_eq_ok_iff {payload : Bytes} {sessionId : SessionId}
    {exporter clientNonce clientKey publicKey serverNonce : FixedBytes 32} :
    (parseServerHello sign payload sessionId exporter clientNonce clientKey).run =
        some (.ok (publicKey, serverNonce)) ↔
      ∃ signature,
        payload = (serverHelloFields publicKey serverNonce clientNonce signature).flatten ∧
        sign.isPublicKey publicKey = true ∧ sign.isSignature signature = true ∧
        sign.verifyDetached signature
          (serverTranscript sessionId exporter clientKey clientNonce publicKey serverNonce)
          publicKey = true := by
  have hlength : ∀ signature,
      (serverHelloFields publicKey serverNonce clientNonce signature).flatten.length =
        serverHelloLen := by
    intro signature
    simp [serverHelloFields, publicKey.property, serverNonce.property, clientNonce.property,
      signature.property, serverHelloLen]
  simp only [parseServerHello, run_check_eq_ok, run_bind_eq_ok, run_liftM_eq_ok, run_pure_eq_ok,
    readFixed_eq_some_iff, not_or, not_not, Bool.not_eq_false, Prod.mk.injEq]
  constructor
  · rintro ⟨⟨hpayload, hrole⟩, key, h4, n, h36, echoed, h68, rfl, signature, h100, hkey, hsignature,
      hverify, rfl, rfl⟩
    refine ⟨signature, FieldsAt.eq_flatten ?_ (hpayload.trans (hlength signature).symm), hkey,
      hsignature, hverify⟩
    simp only [serverHelloFields, FieldsAt, key.property, n.property, echoed.property,
      signature.property]
    exact ⟨(take_eq_iff_slice (by rw [hpayload]; decide)).mp hrole, h4, h36, h68, h100, trivial⟩
  · rintro ⟨signature, rfl, hkey, hsignature, hverify⟩
    have hfields := fieldsAt_flatten (serverHelloFields publicKey serverNonce clientNonce signature)
    simp only [FieldsAt, serverHelloFields, publicKey.property, serverNonce.property,
      clientNonce.property, signature.property] at hfields
    obtain ⟨-, h4, h36, h68, h100, -⟩ := hfields
    exact ⟨⟨hlength signature, rfl⟩, _, h4, _, h36, _, h68, rfl, _, h100, hkey, hsignature,
      hverify, rfl, rfl⟩

/-! ## No payload panics -/

/-- The checks and the result after the last read. -/
theorem defined_checks {a : FixedBytes 32 × FixedBytes 32} {key signature verify : Prop}
    [Decidable key] [Decidable signature] [Decidable verify] {e e' e'' : QuicTransportError} :
    Defined (if key then throw e else if signature then throw e' else if verify then throw e''
      else pure a : ExceptT QuicTransportError Option (FixedBytes 32 × FixedBytes 32)) :=
  (defined_throw _).ite (fun _ => (defined_throw _).ite (fun _ =>
    (defined_throw _).ite (fun _ => defined_pure _)))

theorem defined_parseClientHello (payload : Bytes) (sessionId : SessionId)
    (exporter : FixedBytes 32) : Defined (parseClientHello sign payload sessionId exporter) := by
  refine (defined_throw _).ite (fun h => ?_)
  obtain ⟨hlength, -⟩ := not_or.mp h
  have hpayload : payload.length = 132 := not_not.mp hlength
  refine (defined_lift (readFixed_isSome (by omega))).bind (fun publicKey _ => ?_)
  refine (defined_lift (readFixed_isSome (by omega))).bind (fun nonce _ => ?_)
  refine (defined_lift (readFixed_isSome (by omega))).bind (fun signature _ => ?_)
  exact defined_checks

theorem defined_parseServerHello (payload : Bytes) (sessionId : SessionId)
    (exporter clientNonce clientKey : FixedBytes 32) :
    Defined (parseServerHello sign payload sessionId exporter clientNonce clientKey) := by
  refine (defined_throw _).ite (fun h => ?_)
  obtain ⟨hlength, -⟩ := not_or.mp h
  have hpayload : payload.length = 164 := not_not.mp hlength
  refine (defined_lift (readFixed_isSome (by omega))).bind (fun publicKey _ => ?_)
  refine (defined_lift (readFixed_isSome (by omega))).bind (fun serverNonce _ => ?_)
  refine (defined_lift (readFixed_isSome (by omega))).bind (fun echoed _ => ?_)
  refine (defined_throw _).ite (fun _ => ?_)
  refine (defined_lift (readFixed_isSome (by omega))).bind (fun signature _ => ?_)
  exact defined_checks

/-- What is accepted for no key and no nonce is refused. -/
theorem exists_error_of_defined {x : ExceptT QuicTransportError Option
      (FixedBytes 32 × FixedBytes 32)} (hdefined : Defined x)
    (h : ∀ key nonce, x.run ≠ some (.ok (key, nonce))) : ∃ error, x.run = some (.error error) := by
  obtain ⟨result, hresult⟩ := Option.isSome_iff_exists.mp hdefined
  cases result with
  | error error => exact ⟨error, hresult⟩
  | ok accepted => exact absurd hresult (h accepted.1 accepted.2)

/-! ## The binding -/

theorem parse_encodeClientHello (hsign : sign.Lawful) (identity : DeviceIdentity sign)
    (sessionId : SessionId) (exporter nonce : FixedBytes 32) :
    (parseClientHello sign (encodeClientHello identity sessionId exporter nonce) sessionId
      exporter).run = some (.ok (identity.publicKey, nonce)) := by
  obtain ⟨secretKey, publicKey, rfl⟩ := identity
  exact parseClientHello_eq_ok_iff.mpr ⟨_, rfl, hsign.isPublicKey _, hsign.isSignature _ _,
    hsign.verifies _ _⟩

theorem parse_encodeServerHello (hsign : sign.Lawful) (identity : DeviceIdentity sign)
    (sessionId : SessionId) (exporter clientKey clientNonce serverNonce : FixedBytes 32) :
    (parseServerHello sign (encodeServerHello identity sessionId exporter clientKey clientNonce
      serverNonce) sessionId exporter clientNonce clientKey).run =
        some (.ok (identity.publicKey, serverNonce)) := by
  obtain ⟨secretKey, publicKey, rfl⟩ := identity
  exact parseServerHello_eq_ok_iff.mpr ⟨_, rfl, hsign.isPublicKey _, hsign.isSignature _ _,
    hsign.verifies _ _⟩

section Binding

variable {signed : FixedBytes 32 → Bytes → Prop} {payload : Bytes}

/-- The holder of an accepted key signed this end's transcript. -/
theorem signed_of_parseClientHello (hunforged : sign.Unforged signed payload)
    {sessionId : SessionId} {exporter key nonce : FixedBytes 32}
    (h : (parseClientHello sign payload sessionId exporter).run = some (.ok (key, nonce))) :
    signed key ((Hello.client sessionId exporter nonce).transcript key) := by
  obtain ⟨signature, rfl, -, -, hverify⟩ := parseClientHello_eq_ok_iff.mp h
  refine hunforged signature ⟨[roleClient, 0, 0, 0] ++ (key.val ++ nonce.val), ?_⟩ _ _ hverify
  simp [clientHelloFields]

theorem signed_of_parseServerHello (hunforged : sign.Unforged signed payload)
    {sessionId : SessionId} {exporter clientNonce clientKey key nonce : FixedBytes 32}
    (h : (parseServerHello sign payload sessionId exporter clientNonce clientKey).run =
      some (.ok (key, nonce))) :
    signed key ((Hello.server sessionId exporter clientKey clientNonce nonce).transcript key) := by
  obtain ⟨signature, rfl, -, -, hverify⟩ := parseServerHello_eq_ok_iff.mp h
  refine hunforged signature ⟨[roleServer, 0, 0, 0] ++ (key.val ++ (nonce.val ++
    clientNonce.val)), ?_⟩ _ _ hverify
  simp [serverHelloFields]

/-- Everything signed under a key is a hello that its holder made. -/
def SignsOnly (signed : FixedBytes 32 → Bytes → Prop) (made : FixedBytes 32 → Hello → Prop) :
    Prop :=
  ∀ key message, signed key message → ∃ hello, made key hello ∧ message = hello.transcript key

/-- A hello made by the holder is known by its transcript. -/
theorem SignsOnly.made_of_signed {made : FixedBytes 32 → Hello → Prop}
    (hmade : SignsOnly signed made) {key : FixedBytes 32} {hello : Hello}
    (h : signed key (hello.transcript key)) : made key hello := by
  obtain ⟨hello', hmade', htranscript⟩ := hmade key _ h
  obtain ⟨-, rfl⟩ := Hello.transcript_injective htranscript
  exact hmade'

end Binding

/-- Transcripts determine their role and fields, a hello is read back by the end it is for,
an accepted hello was signed by the holder of its key for this role, session, exporter and
nonce (and this client's key and nonce), and where the holder made no such hello the payload
is refused. -/
theorem hello_binding (sign : Sign σ) :
    (∀ sessionId exporter publicKey nonce sessionId' exporter' publicKey' nonce',
      clientTranscript sessionId exporter publicKey nonce =
        clientTranscript sessionId' exporter' publicKey' nonce' →
      sessionId = sessionId' ∧ exporter = exporter' ∧ publicKey = publicKey' ∧ nonce = nonce') ∧
    (∀ sessionId exporter clientKey clientNonce serverKey serverNonce sessionId' exporter'
        clientKey' clientNonce' serverKey' serverNonce',
      serverTranscript sessionId exporter clientKey clientNonce serverKey serverNonce =
        serverTranscript sessionId' exporter' clientKey' clientNonce' serverKey' serverNonce' →
      sessionId = sessionId' ∧ exporter = exporter' ∧ clientKey = clientKey' ∧
        clientNonce = clientNonce' ∧ serverKey = serverKey' ∧ serverNonce = serverNonce') ∧
    (∀ sessionId exporter publicKey nonce sessionId' exporter' clientKey clientNonce serverKey
        serverNonce,
      clientTranscript sessionId exporter publicKey nonce ≠
        serverTranscript sessionId' exporter' clientKey clientNonce serverKey serverNonce) ∧
    (sign.Lawful → ∀ (identity : DeviceIdentity sign) sessionId exporter,
      (∀ nonce, (parseClientHello sign (encodeClientHello identity sessionId exporter nonce)
        sessionId exporter).run = some (.ok (identity.publicKey, nonce))) ∧
      ∀ clientKey clientNonce serverNonce,
        (parseServerHello sign (encodeServerHello identity sessionId exporter clientKey
          clientNonce serverNonce) sessionId exporter clientNonce clientKey).run =
            some (.ok (identity.publicKey, serverNonce))) ∧
    ∀ (signed : FixedBytes 32 → Bytes → Prop) (payload : Bytes), sign.Unforged signed payload →
      ∀ sessionId exporter,
        (∀ key nonce,
          (parseClientHello sign payload sessionId exporter).run = some (.ok (key, nonce)) →
          signed key (clientTranscript sessionId exporter key nonce)) ∧
        (∀ clientNonce clientKey key nonce,
          (parseServerHello sign payload sessionId exporter clientNonce clientKey).run =
            some (.ok (key, nonce)) →
          signed key (serverTranscript sessionId exporter clientKey clientNonce key nonce)) ∧
        ∀ made, SignsOnly signed made →
          ((∀ key nonce, ¬ made key (.client sessionId exporter nonce)) → ∃ error,
            (parseClientHello sign payload sessionId exporter).run = some (.error error)) ∧
          ∀ clientNonce clientKey,
            (∀ key nonce, ¬ made key (.server sessionId exporter clientKey clientNonce nonce)) →
            ∃ error, (parseServerHello sign payload sessionId exporter clientNonce clientKey).run =
              some (.error error) := by
  refine ⟨?_, ?_, ?_, ?_, ?_⟩
  · intro _ _ _ _ _ _ _ _
    exact clientTranscript_injective
  · intro _ _ _ _ _ _ _ _ _ _ _ _
    exact serverTranscript_injective
  · intro _ _ _ _ _ _ _ _ _ _
    exact clientTranscript_ne_serverTranscript _ _ _ _ _ _ _ _ _ _
  · intro hsign identity sessionId exporter
    exact ⟨parse_encodeClientHello hsign identity sessionId exporter,
      parse_encodeServerHello hsign identity sessionId exporter⟩
  · intro signed payload hunforged sessionId exporter
    refine ⟨fun _ _ => signed_of_parseClientHello hunforged, fun _ _ _ _ =>
      signed_of_parseServerHello hunforged, fun made hmade => ⟨?_, ?_⟩⟩
    · intro hnone
      refine exists_error_of_defined (defined_parseClientHello _ _ _) (fun key nonce h => ?_)
      exact hnone key nonce (hmade.made_of_signed (signed_of_parseClientHello hunforged h))
    · intro clientNonce clientKey hnone
      refine exists_error_of_defined (defined_parseServerHello _ _ _ _ _) (fun key nonce h => ?_)
      exact hnone key nonce (hmade.made_of_signed (signed_of_parseServerHello hunforged h))

/-! ## A replayed hello -/

/-- A scheme in which one signature verifies for one message under one key only. -/
def signOf (known : FixedBytes 32) (statement : Bytes) : Sign (FixedBytes 32) where
  publicKey secretKey := secretKey
  signDetached message secretKey :=
    .replicate 64 (if secretKey = known ∧ message = statement then 1 else 0)
  isPublicKey _ := true
  isSignature _ := true
  verifyDetached signature message key :=
    decide (signature = .replicate 64 (if key = known ∧ message = statement then 1 else 0))

theorem lawful_signOf (known : FixedBytes 32) (statement : Bytes) :
    (signOf known statement).Lawful :=
  ⟨fun _ => rfl, fun _ _ => rfl, fun _ _ => decide_eq_true rfl⟩

/-- A client's only hello is read back in its session and refused in another. -/
theorem hello_binding_replay :
    let key : FixedBytes 32 := .replicate 32 7
    let nonce : FixedBytes 32 := .replicate 32 9
    let exporter : FixedBytes 32 := .replicate 32 5
    let sessionId : SessionId := FixedBytes.replicate 16 1
    let other : SessionId := FixedBytes.replicate 16 2
    let sign := signOf key (clientTranscript sessionId exporter key nonce)
    let payload := encodeClientHello (⟨key, key, rfl⟩ : DeviceIdentity sign) sessionId exporter nonce
    (parseClientHello sign payload sessionId exporter).run = some (.ok (key, nonce)) ∧
      ∃ error, (parseClientHello sign payload other exporter).run = some (.error error) := by
  intro key nonce exporter sessionId other sign payload
  obtain ⟨-, -, -, hround, hbinding⟩ := hello_binding sign
  refine ⟨(hround (lawful_signOf _ _) ⟨key, key, rfl⟩ sessionId exporter).1 nonce, ?_⟩
  have hunforged : sign.Unforged (fun k message => k = key ∧
      message = clientTranscript sessionId exporter key nonce) payload := by
    intro signature hsuffix message k hverify
    have hpayload : (FixedBytes.replicate 64 1).val <:+ payload :=
      ⟨[roleClient, 0, 0, 0] ++ (key.val ++ nonce.val), by decide +kernel⟩
    have hlength := signature.property.trans (FixedBytes.replicate 64 1).property.symm
    have hsignature : signature = .replicate 64 1 := Subtype.ext
      ((List.suffix_of_suffix_length_le hsuffix hpayload hlength.le).eq_of_length hlength)
    replace hverify := of_decide_eq_true hverify
    rw [hsignature] at hverify
    split at hverify
    · assumption
    · exact absurd hverify (by decide)
  refine (hbinding _ payload hunforged other exporter).2.2 (fun k hello => k = key ∧
    hello = .client sessionId exporter nonce) ?_ |>.1 ?_
  · rintro k message ⟨rfl, rfl⟩
    exact ⟨_, ⟨rfl, rfl⟩, rfl⟩
  · rintro k n ⟨-, hhello⟩
    obtain ⟨hsession, -, -⟩ := Hello.client.inj hhello
    exact absurd (congrArg Subtype.val hsession) (by decide +kernel)

end HbbCommon.Transport
