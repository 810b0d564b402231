import HbbCommon.Net.AddrMangle
import HbbCommon.Net.HostPort

/-!
# HTTP proxies

`ProxyScheme::parse` keeps of a proxy URL the text from the host to the end of the port.
`resolve_host`, `get_domain` and `get_host_and_port` take that text apart, each at a colon
in its own way, and `make_request` writes a host and a port into a `CONNECT` request.

The `url` crate and the resolver are parameters. An IPv6 address is printed by the
standard library for a target (`Ipv6Addr.display`) and by the `url` crate in a URL.
-/

namespace HbbCommon.Net

open HbbCommon.Base

/-! ## Printed addresses -/

/-- The `Display` of `Ipv4Addr`. -/
def Ipv4Addr.display (ip : Ipv4Addr) : Text :=
  ['.'].intercalate (ip.val.map (fun octet => decimal octet.toNat))

namespace Ipv6Addr

def segments (ip : Ipv6Addr) : List Nat :=
  (List.range 8).map (fun i => ofBeBytes ((ip.val.drop (2 * i)).take 2))

theorem length_lastOctets (ip : Ipv6Addr) : (ip.val.drop 12).length = 4 := by
  rw [List.length_drop, ip.property]

/-- `to_ipv4_mapped`: the last four octets of `::ffff:a.b.c.d`. -/
def toIpv4Mapped (ip : Ipv6Addr) : Option Ipv4Addr :=
  if ip.val.take 12 = List.replicate 10 0 ++ [255, 255] then
    some ⟨ip.val.drop 12, ip.length_lastOctets⟩
  else
    none

/-- The first longest run of zero segments, as its start and its length. -/
def longestZeros (segments : List Nat) : Nat × Nat :=
  let step := fun (state : (Nat × Nat) × (Nat × Nat)) (entry : Nat × Nat) =>
    if entry.1 = 0 then
      let current :=
        if state.2.2 = 0 then (entry.2, 1) else (state.2.1, state.2.2 + 1)
      (if current.2 > state.1.2 then current else state.1, current)
    else
      (state.1, (0, 0))
  (segments.zipIdx.foldl step ((0, 0), (0, 0))).1

def displaySegments (segments : List Nat) : Text :=
  joinGroups (segments.map (Nat.toDigits 16))

/-- The `Display` of `Ipv6Addr`. -/
def display (ip : Ipv6Addr) : Text :=
  match ip.toIpv4Mapped with
  | some v4 => "::ffff:".toList ++ v4.display
  | none =>
      let (start, len) := longestZeros ip.segments
      if len > 1 then
        displaySegments (ip.segments.take start) ++ ':' :: ':' ::
          displaySegments (ip.segments.drop (start + len))
      else
        displaySegments ip.segments

end Ipv6Addr

/-- `IpAddr::to_string`. -/
def IpAddr.display : IpAddr → Text
  | .v4 ip => ip.display
  | .v6 ip => ip.display

/-! ## The URL of a proxy -/

/-- The host of a URL with a host. A domain has no colon. -/
inductive UrlHost
  | domain (name : Text) (h : ':' ∉ name)
  | ipv4 (ip : Ipv4Addr)
  | ipv6 (ip : Ipv6Addr)

structure Url where
  scheme : Text
  username : Text
  password : Option Text
  host : UrlHost
  /-- The port, when the URL has one that is not the default of its scheme. -/
  port : Option UInt16

/-- How the `url` crate prints an IPv6 host, without the brackets. -/
structure UrlPrinter where
  ipv6 : Ipv6Addr → Text
  colon_mem : ∀ ip, ':' ∈ ipv6 ip

section

variable (printer : UrlPrinter)

def UrlHost.text : UrlHost → Text
  | .domain name _ => name
  | .ipv4 ip => ip.display
  | .ipv6 ip => '[' :: printer.ipv6 ip ++ [']']

/-- `&url[Position::BeforeHost..Position::AfterPort]`. -/
def Url.hostAndPort (url : Url) : Text :=
  url.host.text printer ++
    match url.port with
    | some port => ':' :: decimal port.toNat
    | none => []

end

structure Auth where
  userName : Text
  password : Text
  deriving DecidableEq

inductive ProxyScheme
  | http (auth : Option Auth) (host : Text)
  | https (auth : Option Auth) (host : Text)
  | socks5 (auth : Option Auth) (addr : SocketAddr) (remoteDns : Bool)
  deriving DecidableEq

inductive ProxyError
  | urlBadScheme (scheme : Text)
  | emptyHost
  | ioError
  | addressResolutionFailed (host : Text)
  deriving DecidableEq

namespace ProxyScheme

def maybeAuth : ProxyScheme → Option Auth
  | .http auth _ => auth
  | .https auth _ => auth
  | .socks5 auth _ _ => auth

def setBasicAuth (scheme : ProxyScheme) (username password : Text) : ProxyScheme :=
  let auth := some { userName := username, password }
  match scheme with
  | .http _ host => .http auth host
  | .https _ host => .https auth host
  | .socks5 _ addr remoteDns => .socks5 auth addr remoteDns

/-- `ProxyScheme::parse`; `socketAddrs` is what the URL's addresses resolve to. -/
def parse (printer : UrlPrinter) (socketAddrs : Url → Except ProxyError (List SocketAddr))
    (url : Url) : Except ProxyError ProxyScheme := do
  let scheme ←
    if url.scheme = "http".toList then
      .ok (ProxyScheme.http none (url.hostAndPort printer))
    else if url.scheme = "https".toList then
      .ok (ProxyScheme.https none (url.hostAndPort printer))
    else if url.scheme = "socks5".toList then do
      match (← socketAddrs url).head? with
      | some addr => .ok (ProxyScheme.socks5 none addr false)
      | none => .error .emptyHost
    else
      .error (.urlBadScheme url.scheme)
  match url.password with
  | some pwd => .ok (scheme.setBasicAuth url.username pwd)
  | none => .ok scheme

/-- `split_once`. -/
def splitOnce (c : Char) : Text → Option (Text × Text)
  | [] => none
  | d :: t => if d = c then some ([], t) else (splitOnce c t).map (fun parts => (d :: parts.1, parts.2))

/-- The host and the port that `resolve_host` looks up. -/
def lookedUp (host : Text) (defaultPort : Nat) : Text × Nat :=
  match splitOnce ':' host with
  | some (h, p) => (h, (parseU16 p).getD defaultPort)
  | none => (host, defaultPort)

def resolveHost (toSocketAddrs : Text × Nat → Except ProxyError (List SocketAddr)) (host : Text)
    (defaultPort : Nat) : Except ProxyError SocketAddr := do
  match (← toSocketAddrs (lookedUp host defaultPort)).head? with
  | some addr => .ok addr
  | none => .error (.addressResolutionFailed host)

def socketAddrs (toSocketAddrs : Text × Nat → Except ProxyError (List SocketAddr)) :
    ProxyScheme → Except ProxyError SocketAddr
  | .http _ host => resolveHost toSocketAddrs host 80
  | .https _ host => resolveHost toSocketAddrs host 443
  | .socks5 _ addr _ => .ok addr

def getDomain : ProxyScheme → Except ProxyError Text
  | .http _ host | .https _ host =>
      match (host.splitOn ':').head? with
      | some domain => .ok domain
      | none => .error (.addressResolutionFailed host)
  | .socks5 _ addr _ => .ok addr.ip.display

def appendDefaultPort (host : Text) (defaultPort : Nat) : Text :=
  if host.contains ':' then host else host ++ ':' :: decimal defaultPort

/-- `format!("{}", addr)`. -/
def displaySocketAddr (addr : SocketAddr) : Text :=
  match addr with
  | .v4 ip port => ip.display ++ ':' :: decimal port.toNat
  | .v6 ip port _ scopeId =>
      let scope := if scopeId = 0 then [] else '%' :: decimal scopeId.toNat
      '[' :: ip.display ++ scope ++ ']' :: ':' :: decimal port.toNat

def getHostAndPort : ProxyScheme → Except ProxyError Text
  | .http _ host => .ok (appendDefaultPort host 80)
  | .https _ host => .ok (appendDefaultPort host 443)
  | .socks5 _ addr _ => .ok (displaySocketAddr addr)

end ProxyScheme

/-! ## The request -/

/-- `TargetAddr` of `tokio_socks`. -/
inductive TargetAddr
  | ip (addr : SocketAddr)
  | domain (name : Text) (port : UInt16)

def getDomainAndPort : TargetAddr → Text × UInt16
  | .ip addr => (addr.ip.display, addr.port)
  | .domain name port => (name, port)

/-- `get_proxy_authorization`; `encode` is the base64 of the credentials. -/
def Auth.getProxyAuthorization (encode : Text → Text) (auth : Auth) : Text :=
  "Proxy-Authorization: Basic ".toList ++ encode (auth.userName ++ ':' :: auth.password) ++
    ['\r', '\n']

def makeRequest (encode : Text → Text) (intercept : ProxyScheme) (host : Text) (port : UInt16) :
    Text :=
  let authority := host ++ ':' :: decimal port.toNat
  let request :=
    "CONNECT ".toList ++ authority ++ " HTTP/1.1".toList ++ ['\r', '\n'] ++ "Host: ".toList ++
      authority ++ ['\r', '\n']
  let request :=
    match intercept.maybeAuth with
    | some auth => request ++ auth.getProxyAuthorization encode
    | none => request
  request ++ ['\r', '\n']

/-- The request that `http_connect` sends for a target. -/
def connectRequest (encode : Text → Text) (intercept : ProxyScheme) (target : TargetAddr) : Text :=
  makeRequest encode intercept (getDomainAndPort target).1 (getDomainAndPort target).2

end HbbCommon.Net
