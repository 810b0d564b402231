import HbbCommon.Base.ByteFields
import HbbCommon.Transport.Protocol

/-!
# The hellos of the identity authentication

Each end of a connection signs a transcript of its role, the session, the exporter of the
TLS connection, and its key and nonce; the server signs the client's key and nonce as well.
A hello carries the key, the nonce and the signature. The signature scheme is a parameter.
-/

namespace HbbCommon.Transport

open HbbCommon.Base

def clientHelloLen : Nat := 4 + 32 + 32 + 64

def serverHelloLen : Nat := 4 + 32 + 32 + 32 + 64

def roleClient : UInt8 := 1

def roleServer : UInt8 := 2

def clientAuthTag : Bytes := utf8Bytes "rustadmin-quic-client-auth-v1"

def serverAuthTag : Bytes := utf8Bytes "rustadmin-quic-server-auth-v1"

inductive QuicTransportError
  | authentication (message : String)
  deriving DecidableEq, Repr

/-- `sodiumoxide::crypto::sign`, over the type of secret keys. -/
structure Sign (σ : Type) where
  /-- the key that belongs to a secret key -/
  publicKey : σ → FixedBytes 32
  signDetached : Bytes → σ → FixedBytes 64
  /-- `PublicKey::from_slice` has a value -/
  isPublicKey : FixedBytes 32 → Bool
  /-- `Signature::from_bytes` has a value -/
  isSignature : FixedBytes 64 → Bool
  verifyDetached : FixedBytes 64 → Bytes → FixedBytes 32 → Bool

/-- A key pair whose two keys belong together, as `from_bytes` checks. -/
structure DeviceIdentity {σ : Type} (sign : Sign σ) where
  secretKey : σ
  publicKey : FixedBytes 32
  matches_ : sign.publicKey secretKey = publicKey

def clientTranscript (sessionId : SessionId) (exporter publicKey nonce : FixedBytes 32) : Bytes :=
  clientAuthTag ++ (exporter.val ++ (sessionId.val ++ (publicKey.val ++ nonce.val)))

def serverTranscript (sessionId : SessionId)
    (exporter clientKey clientNonce serverKey serverNonce : FixedBytes 32) : Bytes :=
  serverAuthTag ++ (exporter.val ++ (sessionId.val ++ (clientKey.val ++ (clientNonce.val ++
    (serverKey.val ++ serverNonce.val)))))

/-- A client hello, field by field. -/
def clientHelloFields (publicKey nonce : FixedBytes 32) (signature : FixedBytes 64) : List Bytes :=
  [[roleClient, 0, 0, 0], publicKey.val, nonce.val, signature.val]

/-- A server hello, field by field. -/
def serverHelloFields (publicKey serverNonce clientNonce : FixedBytes 32)
    (signature : FixedBytes 64) : List Bytes :=
  [[roleServer, 0, 0, 0], publicKey.val, serverNonce.val, clientNonce.val, signature.val]

variable {σ : Type} {sign : Sign σ}

def encodeClientHello (identity : DeviceIdentity sign) (sessionId : SessionId)
    (exporter nonce : FixedBytes 32) : Bytes :=
  let transcript := clientTranscript sessionId exporter identity.publicKey nonce
  let signature := sign.signDetached transcript identity.secretKey
  (clientHelloFields identity.publicKey nonce signature).flatten

def parseClientHello (sign : Sign σ) (payload : Bytes) (sessionId : SessionId)
    (exporter : FixedBytes 32) :
    ExceptT QuicTransportError Option (FixedBytes 32 × FixedBytes 32) :=
  if payload.length ≠ clientHelloLen ∨ payload.take 4 ≠ [roleClient, 0, 0, 0] then
    throw (.authentication "malformed client hello")
  else do
    let publicKey ← readFixed 32 payload 4
    let nonce ← readFixed 32 payload 36
    let signature ← readFixed 64 payload 68
    if sign.isPublicKey publicKey = false then
      throw (.authentication "invalid client identity key")
    else if sign.isSignature signature = false then
      throw (.authentication "invalid client signature encoding")
    else if sign.verifyDetached signature (clientTranscript sessionId exporter publicKey nonce)
        publicKey = false then
      throw (.authentication "client identity signature verification failed")
    else return (publicKey, nonce)

def encodeServerHello (identity : DeviceIdentity sign) (sessionId : SessionId)
    (exporter clientKey clientNonce serverNonce : FixedBytes 32) : Bytes :=
  let transcript := serverTranscript sessionId exporter clientKey clientNonce identity.publicKey
    serverNonce
  let signature := sign.signDetached transcript identity.secretKey
  (serverHelloFields identity.publicKey serverNonce clientNonce signature).flatten

def parseServerHello (sign : Sign σ) (payload : Bytes) (sessionId : SessionId)
    (exporter clientNonce clientKey : FixedBytes 32) :
    ExceptT QuicTransportError Option (FixedBytes 32 × FixedBytes 32) :=
  if payload.length ≠ serverHelloLen ∨ payload.take 4 ≠ [roleServer, 0, 0, 0] then
    throw (.authentication "malformed server hello")
  else do
    let publicKey ← readFixed 32 payload 4
    let serverNonce ← readFixed 32 payload 36
    let echoedClientNonce ← readFixed 32 payload 68
    if echoedClientNonce ≠ clientNonce then
      throw (.authentication "server hello client nonce mismatch")
    else do
      let signature ← readFixed 64 payload 100
      if sign.isPublicKey publicKey = false then
        throw (.authentication "invalid server identity key")
      else if sign.isSignature signature = false then
        throw (.authentication "invalid server signature encoding")
      else if sign.verifyDetached signature
          (serverTranscript sessionId exporter clientKey clientNonce publicKey serverNonce)
          publicKey = false then
        throw (.authentication "server identity signature verification failed")
      else return (publicKey, serverNonce)

end HbbCommon.Transport
