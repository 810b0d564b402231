import HbbCommon.Base.OrdMap
import HbbCommon.Base.TSys

/-!
# TLS of the outgoing connections

A WebSocket or HTTPS-proxy connection tries rustls first and native-tls when that fails. Where
`allow_insecure_tls_fallback` permits it, each of them is tried again without verifying the
certificate. What worked is remembered per server: the TLS implementation and whether the
certificate was verified. The next connection starts from there.

The server is cut out of the URL by `get_domain_and_port_from_url`. A URL is the list of its
characters, and the outcomes of the attempts of a connection are the argument of its
functions; where they end, no further attempt is made (the request, the connector or the TCP
stream could not be made).
-/

namespace HbbCommon.Connect

open HbbCommon.Base

abbrev Url := List Char

inductive TlsType
  | plain
  | nativeTls
  | rustls
  deriving DecidableEq, Repr

def isPlain (url : Url) : Bool :=
  "ws://".toList.isPrefixOf url || "http://".toList.isPrefixOf url

/-- The text after the first `://`. -/
def afterScheme? : Url → Option Url
  | ':' :: '/' :: '/' :: rest => some rest
  | _ :: rest => afterScheme? rest
  | [] => none

def afterScheme (url : Url) : Url := (afterScheme? url).getD url

/-- The text after the last `@`, all of it when there is none. -/
def afterLastAt (text : Url) : Url := (text.reverse.takeWhile (fun c => c != '@')).reverse

def getDomainAndPortFromUrl (url : Url) : Url :=
  (afterLastAt (afterScheme url)).takeWhile (fun c => c != '/' && c != '?')

/-- The host and port of the authority of a URL: the authority ends before the first `/`, `?`
or `#`, and its userinfo with `@`. -/
def serverOf (url : Url) : Url :=
  afterLastAt ((afterScheme url).takeWhile (fun c => c != '/' && c != '?' && c != '#'))

inductive AttemptOutcome
  | connected
  | failed
  | timedOut
  deriving DecidableEq, Repr

structure Attempt where
  url : Url
  tlsType : TlsType
  dangerAcceptInvalidCert : Bool
  outcome : AttemptOutcome
  deriving DecidableEq, Repr

/-- The two caches, with the attempts that were made, in order. -/
structure TlsRun where
  urlTlsType : OrdMap Url TlsType
  urlTlsDangerAcceptInvalidCerts : OrdMap Url Bool
  attempts : List Attempt
  deriving DecidableEq

namespace TlsRun

def new : TlsRun :=
  { urlTlsType := ∅, urlTlsDangerAcceptInvalidCerts := ∅, attempts := [] }

def upsertTlsCache (s : TlsRun) (url : Url) (tlsType : TlsType) (dangerAcceptInvalidCert : Bool) :
    TlsRun :=
  if isPlain url then s
  else { s with
    urlTlsType := s.urlTlsType.insert (getDomainAndPortFromUrl url) tlsType
    urlTlsDangerAcceptInvalidCerts := s.urlTlsDangerAcceptInvalidCerts.insert
      (getDomainAndPortFromUrl url) dangerAcceptInvalidCert }

def getCachedTlsType (s : TlsRun) (url : Url) : Option TlsType :=
  if isPlain url then some .plain else s.urlTlsType.get? (getDomainAndPortFromUrl url)

def getCachedTlsAcceptInvalidCert (allowInsecureTlsFallback : Bool) (s : TlsRun) (url : Url) :
    Option Bool :=
  if !allowInsecureTlsFallback then some false
  else if isPlain url then some false
  else s.urlTlsDangerAcceptInvalidCerts.get? (getDomainAndPortFromUrl url)

def attempt (s : TlsRun) (url : Url) (tlsType : TlsType) (dangerAcceptInvalidCert : Bool)
    (outcome : AttemptOutcome) : TlsRun :=
  { s with attempts := s.attempts ++ [⟨url, tlsType, dangerAcceptInvalidCert, outcome⟩] }

/-- `WsFramedStream::try_connect`. -/
def tryConnect (url : Url) (isTlsTypeCached : Bool) (original : Option Bool) :
    List AttemptOutcome → TlsType → Option Bool → TlsRun → TlsRun
  | [], _, _, s => s
  | outcome :: outcomes, tlsType, danger, s =>
      let s := s.attempt url tlsType (danger.getD false) outcome
      match outcome with
      | .timedOut => s
      | .connected => s.upsertTlsCache url tlsType (danger.getD false)
      | .failed =>
          match tlsType, isTlsTypeCached, danger with
          | .rustls, _, none =>
              tryConnect url isTlsTypeCached original outcomes .rustls (some true) s
          | .rustls, false, some _ =>
              tryConnect url isTlsTypeCached original outcomes .nativeTls original s
          | .nativeTls, _, none =>
              tryConnect url isTlsTypeCached original outcomes .nativeTls (some true) s
          | _, _, _ => s

/-- `WsFramedStream::connect`. -/
def wsConnect (allowInsecureTlsFallback : Bool) (s : TlsRun) (url : Url)
    (outcomes : List AttemptOutcome) : TlsRun :=
  let tlsType := s.getCachedTlsType url
  let danger := getCachedTlsAcceptInvalidCert allowInsecureTlsFallback s url
  tryConnect url tlsType.isSome danger outcomes (tlsType.getD .rustls) danger s

def httpsConnectNativetlsWrapDanger (url : Url) (danger : Option Bool) (s : TlsRun) :
    List AttemptOutcome → TlsRun
  | [] => s
  | outcome :: _ =>
      let s := s.attempt url .nativeTls (danger.getD false) outcome
      match outcome with
      | .connected => s.upsertTlsCache url .nativeTls (danger.getD false)
      | .failed | .timedOut => s

def httpsConnectRustlsWrapDanger (url : Url) (isTlsTypeCached : Bool) (origin : Option Bool) :
    List AttemptOutcome → Option Bool → TlsRun → TlsRun
  | [], _, s => s
  | outcome :: outcomes, danger, s =>
      let s := s.attempt url .rustls (danger.getD false) outcome
      match outcome with
      | .timedOut => s
      | .connected => s.upsertTlsCache url .rustls (danger.getD false)
      | .failed =>
          if danger.isNone then
            httpsConnectRustlsWrapDanger url isTlsTypeCached origin outcomes (some true) s
          else if !isTlsTypeCached then
            httpsConnectNativetlsWrapDanger url origin s outcomes
          else s

def appendDefaultPort (host : List Char) : List Char :=
  if host.contains ':' then host else host ++ ":443".toList

def proxyUrl (host : List Char) : Url := "https://".toList ++ appendDefaultPort host

/-- The HTTPS branch of `Proxy::connect`. -/
def proxyConnect (allowInsecureTlsFallback : Bool) (s : TlsRun) (host : List Char)
    (outcomes : List AttemptOutcome) : TlsRun :=
  let url := proxyUrl host
  let tlsType := s.getCachedTlsType url
  let danger := getCachedTlsAcceptInvalidCert allowInsecureTlsFallback s url
  match tlsType.getD .rustls with
  | .rustls => httpsConnectRustlsWrapDanger url tlsType.isSome danger outcomes danger s
  | .nativeTls => httpsConnectNativetlsWrapDanger url danger s outcomes
  | .plain => s

end TlsRun

/-- A connection, with the outcomes of its attempts. -/
inductive TlsConnect
  | webSocket (url : Url) (outcomes : List AttemptOutcome)
  | httpsProxy (host : List Char) (outcomes : List AttemptOutcome)
  deriving DecidableEq, Repr

def TlsConnect.url : TlsConnect → Url
  | .webSocket url _ => url
  | .httpsProxy host _ => TlsRun.proxyUrl host

namespace TlsRun

def step (allowInsecureTlsFallback : Bool) (s : TlsRun) : TlsConnect → Option TlsRun
  | .webSocket url outcomes => some (s.wsConnect allowInsecureTlsFallback url outcomes)
  | .httpsProxy host outcomes => some (s.proxyConnect allowInsecureTlsFallback host outcomes)

def system (allowInsecureTlsFallback : Bool) : TSys TlsRun TlsConnect where
  init := new
  step := step allowInsecureTlsFallback

end TlsRun

/-- A TLS attempt that verifies the certificate. -/
def Attempt.Verified (a : Attempt) : Prop :=
  a.tlsType ≠ .plain ∧ a.dangerAcceptInvalidCert = false

instance (a : Attempt) : Decidable a.Verified := inferInstanceAs (Decidable (_ ∧ _))

/-- Verification is off only where it is allowed, only for a server that failed a verified
attempt before, and never for one that has succeeded in one. -/
structure NoDowngrade (allowInsecureTlsFallback : Bool) (attempts : List Attempt) : Prop where
  refused : allowInsecureTlsFallback = false →
    ∀ a ∈ attempts, a.dangerAcceptInvalidCert = false
  failedBefore : ∀ (before : List Attempt) (a : Attempt) (after : List Attempt),
    attempts = before ++ a :: after → a.dangerAcceptInvalidCert = true →
    ∃ b ∈ before, serverOf b.url = serverOf a.url ∧ b.Verified ∧ b.outcome = .failed
  neverVerified : ∀ (before : List Attempt) (a : Attempt) (after : List Attempt),
    attempts = before ++ a :: after → a.dangerAcceptInvalidCert = true →
    ¬ ∃ b ∈ before, serverOf b.url = serverOf a.url ∧ b.Verified ∧ b.outcome = .connected

end HbbCommon.Connect
