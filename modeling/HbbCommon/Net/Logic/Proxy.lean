import HbbCommon.Net.Proxy
import HbbCommon.Net.Logic.HostPort

/-!
# Where the authority of a proxy survives

A host that is a domain or an IPv4 address has no colon of its own, and then the first
colon of the stored text is the one before the port: the three functions that cut the text
there agree. An IPv6 host has colons, and `resolve_host` and `get_domain` cut it at the
first of them. A target that is an IPv6 address goes into the request without brackets, so
that its last group and the port cannot be told apart from an address.
-/

namespace HbbCommon.Net

open HbbCommon.Base

/-! ## Colons -/

theorem Ipv4Addr.mem_display (ip : Ipv4Addr) : ∀ c ∈ ip.display, c.isDigit = true ∨ c = '.' := by
  refine mem_intercalate (.inr rfl) (fun part hpart c hc => ?_)
  obtain ⟨octet, -, rfl⟩ := List.mem_map.mp hpart
  exact .inl (isDigit_of_mem_decimal hc)

theorem Ipv4Addr.not_mem_display {c : Char} (hdigit : c.isDigit = false) (hdot : c ≠ '.')
    (ip : Ipv4Addr) : c ∉ ip.display := by
  intro hmem
  rcases ip.mem_display c hmem with h | h
  · rw [hdigit] at h
    cases h
  · exact hdot h

theorem mem_toDigits {b n : Nat} (hb : 1 < b) {c : Char} (h : c ∈ Nat.toDigits b n) :
    ∃ k, c = Nat.digitChar k := by
  induction n using Nat.strongRecOn with
  | ind n ih =>
      rw [Nat.toDigits_eq_if hb] at h
      split at h
      · exact ⟨n, List.mem_singleton.mp h⟩
      · rcases List.mem_append.mp h with h | h
        · exact ih (n / b) (Nat.div_lt_self (by omega) hb) h
        · exact ⟨n % b, List.mem_singleton.mp h⟩

theorem Ipv6Addr.not_mem_displaySegments {c : Char} (hcolon : c ≠ ':')
    (hdigit : ∀ k, Nat.digitChar k ≠ c) (segments : List Nat) :
    c ∉ Ipv6Addr.displaySegments segments := by
  suffices h : ∀ d ∈ Ipv6Addr.displaySegments segments, d ≠ c from fun hmem => h _ hmem rfl
  refine mem_joinGroups (P := fun d => d ≠ c) (Ne.symm hcolon) (fun g hg d hd => ?_)
  obtain ⟨n, -, rfl⟩ := List.mem_map.mp hg
  obtain ⟨k, rfl⟩ := mem_toDigits (by decide) hd
  exact hdigit k

/-- An IPv6 address is printed in digits, colons and dots. -/
theorem Ipv6Addr.not_mem_display {c : Char} (hcolon : c ≠ ':') (hdot : c ≠ '.')
    (hdigit : ∀ k, Nat.digitChar k ≠ c) (ip : Ipv6Addr) : c ∉ ip.display := by
  unfold Ipv6Addr.display
  split
  · rename_i v4 _
    intro hmem
    rcases List.mem_append.mp hmem with hmem | hmem
    · have hf : c ≠ 'f' := Ne.symm (hdigit 15)
      simp [hcolon, hf] at hmem
    · refine v4.not_mem_display ?_ hdot hmem
      rw [Bool.eq_false_iff]
      intro hc
      have hrange : 48 ≤ c.toNat ∧ c.toNat ≤ 57 := by
        unfold Char.isDigit at hc
        simpa [UInt32.le_iff_toNat_le] using hc
      refine hdigit (c.toNat - 48) (Char.toNat_inj.mp ?_)
      rw [Nat.toNat_digitChar_of_lt_ten (by omega)]
      omega
  · dsimp only
    split
    · intro hmem
      simp only [List.mem_append, List.mem_cons] at hmem
      rcases hmem with hmem | hmem | hmem | hmem
      · exact not_mem_displaySegments hcolon hdigit _ hmem
      · exact hcolon hmem
      · exact hcolon hmem
      · exact not_mem_displaySegments hcolon hdigit _ hmem
    · exact not_mem_displaySegments hcolon hdigit _

/-- Every form that an IPv6 address is printed in has a colon. -/
theorem Ipv6Addr.colon_mem_display (ip : Ipv6Addr) : ':' ∈ ip.display := by
  unfold Ipv6Addr.display
  split
  · exact List.mem_append_left _ (by decide)
  · dsimp only
    split
    · simp
    · have hle := count_joinGroups (ip.segments.map (Nat.toDigits 16))
      have hlength : (ip.segments.map (Nat.toDigits 16)).length = 8 := by
        simp [Ipv6Addr.segments]
      rw [hlength] at hle
      exact List.count_pos_iff.mp (Nat.lt_of_lt_of_le (by decide) (Nat.le_of_succ_le_succ hle))

/-! ## The stored text -/

theorem splitOnce_of_not_mem {c : Char} {t : Text} (h : c ∉ t) :
    ProxyScheme.splitOnce c t = none := by
  induction t with
  | nil => rfl
  | cons d t ih =>
      obtain ⟨hd, ht⟩ := not_or.mp (mt List.mem_cons.mpr h)
      rw [ProxyScheme.splitOnce, if_neg (Ne.symm hd), ih ht]
      rfl

theorem splitOnce_append {c : Char} {s : Text} (hs : c ∉ s) (t : Text) :
    ProxyScheme.splitOnce c (s ++ c :: t) = some (s, t) := by
  induction s with
  | nil => exact if_pos rfl
  | cons d s ih =>
      obtain ⟨hd, hs⟩ := not_or.mp (mt List.mem_cons.mpr hs)
      rw [List.cons_append, ProxyScheme.splitOnce, if_neg (Ne.symm hd), ih hs]
      rfl

/-- What `socket_addrs` looks up. -/
def ProxyScheme.lookup : ProxyScheme → Option (Text × Nat)
  | .http _ host => some (lookedUp host 80)
  | .https _ host => some (lookedUp host 443)
  | .socks5 _ _ _ => none

/-- The resolver is asked once, for the lookup. -/
theorem ProxyScheme.socketAddrs_of_lookup {scheme : ProxyScheme} {key : Text × Nat}
    (h : scheme.lookup = some key)
    (toSocketAddrs : Text × Nat → Except ProxyError (List SocketAddr)) :
    (∃ error, toSocketAddrs key = .error error ∧
      scheme.socketAddrs toSocketAddrs = .error error) ∨
    ∃ addrs, toSocketAddrs key = .ok addrs ∧
      ∀ addr, scheme.socketAddrs toSocketAddrs = .ok addr ↔ addrs.head? = some addr := by
  have hresolve : ∀ host defaultPort, ProxyScheme.lookedUp host defaultPort = key →
      (∃ error, toSocketAddrs key = .error error ∧
        ProxyScheme.resolveHost toSocketAddrs host defaultPort = .error error) ∨
      ∃ addrs, toSocketAddrs key = .ok addrs ∧ ∀ addr,
        ProxyScheme.resolveHost toSocketAddrs host defaultPort = .ok addr ↔
          addrs.head? = some addr := by
    rintro host defaultPort rfl
    unfold ProxyScheme.resolveHost
    cases hlookup : toSocketAddrs (ProxyScheme.lookedUp host defaultPort) with
    | error error => exact .inl ⟨error, rfl, rfl⟩
    | ok addrs =>
        refine .inr ⟨addrs, rfl, fun addr => ?_⟩
        cases addrs with
        | nil => exact ⟨nofun, nofun⟩
        | cons first addrs =>
            show Except.ok first = Except.ok addr ↔ some first = some addr
            simp
  cases scheme with
  | http auth host => exact hresolve host 80 (Option.some.inj h)
  | https auth host => exact hresolve host 443 (Option.some.inj h)
  | socks5 auth addr remoteDns => cases h

section

variable (printer : UrlPrinter)

/-- The texts that name a host: an IPv6 host may stand with or without its brackets. -/
def UrlHost.forms : UrlHost → List Text
  | .domain name _ => [name]
  | .ipv4 ip => [ip.display]
  | .ipv6 ip => [printer.ipv6 ip, '[' :: printer.ipv6 ip ++ [']']]

def UrlHost.isIpv6 : UrlHost → Bool
  | .ipv6 _ => true
  | _ => false

/-- The port of the URL, or the default of its scheme. -/
def Url.portOr (url : Url) (defaultPort : Nat) : Nat :=
  match url.port with
  | some port => port.toNat
  | none => defaultPort

/-- The default port of the scheme of an HTTP URL. -/
def Url.defaultPort (url : Url) : Nat := if url.scheme = "http".toList then 80 else 443

/-- What the three functions owe a proxy that is read from a URL: the lookup is for the host
and the port of the URL, the domain is its host, and the pair is the host with the port. -/
structure SplitsRight (url : Url) (scheme : ProxyScheme) : Prop where
  lookup : ∃ host ∈ url.host.forms printer,
    scheme.lookup = some (host, url.portOr url.defaultPort)
  domain : ∃ host ∈ url.host.forms printer, scheme.getDomain = .ok host
  pair : scheme.getHostAndPort =
    .ok (url.host.text printer ++ ':' :: decimal (url.portOr url.defaultPort))

variable {printer}

theorem UrlHost.colon_not_mem {host : UrlHost} (h : host.isIpv6 = false) :
    ':' ∉ host.text printer ∧ host.text printer ∈ host.forms printer := by
  cases host with
  | domain name hname => exact ⟨hname, List.mem_singleton_self _⟩
  | ipv4 ip => exact ⟨ip.not_mem_display (by decide) (by decide), List.mem_singleton_self _⟩
  | ipv6 ip => cases h

/-- The text that is stored for an HTTP URL, and the default port it is used with. -/
theorem stored_of_parse {socketAddrs : Url → Except ProxyError (List SocketAddr)} {url : Url}
    {scheme : ProxyScheme} (hparse : ProxyScheme.parse printer socketAddrs url = .ok scheme)
    (hhttp : url.scheme = "http".toList ∨ url.scheme = "https".toList) :
    scheme.lookup = some (ProxyScheme.lookedUp (url.hostAndPort printer) url.defaultPort) ∧
      scheme.getDomain = (match ((url.hostAndPort printer).splitOn ':').head? with
        | some domain => .ok domain
        | none => .error (.addressResolutionFailed (url.hostAndPort printer))) ∧
      scheme.getHostAndPort =
        .ok (ProxyScheme.appendDefaultPort (url.hostAndPort printer) url.defaultPort) := by
  have hshape : (url.defaultPort = 80 ∧
        ∃ auth, scheme = ProxyScheme.http auth (url.hostAndPort printer)) ∨
      (url.defaultPort = 443 ∧
        ∃ auth, scheme = ProxyScheme.https auth (url.hostAndPort printer)) := by
    unfold ProxyScheme.parse at hparse
    unfold Url.defaultPort
    rcases hhttp with hhttp | hhttp
    · rw [if_pos hhttp] at hparse
      rw [if_pos hhttp]
      refine .inl ⟨rfl, ?_⟩
      cases hp : url.password with
      | none =>
          rw [hp] at hparse
          cases hparse
          exact ⟨_, rfl⟩
      | some pwd =>
          rw [hp] at hparse
          cases hparse
          exact ⟨_, rfl⟩
    · have hne : ¬ url.scheme = "http".toList := by
        rw [hhttp]
        decide
      rw [if_neg hne, if_pos hhttp] at hparse
      rw [if_neg hne]
      refine .inr ⟨rfl, ?_⟩
      cases hp : url.password with
      | none =>
          rw [hp] at hparse
          cases hparse
          exact ⟨_, rfl⟩
      | some pwd =>
          rw [hp] at hparse
          cases hparse
          exact ⟨_, rfl⟩
  rcases hshape with ⟨hport, auth, rfl⟩ | ⟨hport, auth, rfl⟩
  · rw [hport]
    exact ⟨rfl, rfl, rfl⟩
  · rw [hport]
    exact ⟨rfl, rfl, rfl⟩

theorem splitsRight_of_plain {socketAddrs : Url → Except ProxyError (List SocketAddr)} {url : Url}
    {scheme : ProxyScheme} (hparse : ProxyScheme.parse printer socketAddrs url = .ok scheme)
    (hhttp : url.scheme = "http".toList ∨ url.scheme = "https".toList)
    (h : url.host.isIpv6 = false) : SplitsRight printer url scheme := by
  obtain ⟨hlookup, hdomain, hpair⟩ := stored_of_parse hparse hhttp
  obtain ⟨hcolon, hform⟩ : ':' ∉ url.host.text printer ∧
      url.host.text printer ∈ url.host.forms printer := UrlHost.colon_not_mem h
  cases hp : url.port with
  | none =>
      have htext : url.hostAndPort printer = url.host.text printer := by
        unfold Url.hostAndPort
        rw [hp, List.append_nil]
      have hor : url.portOr url.defaultPort = url.defaultPort := by
        unfold Url.portOr
        rw [hp]
      refine ⟨⟨_, hform, ?_⟩, ⟨_, hform, ?_⟩, ?_⟩
      · rw [hlookup, htext, hor, ProxyScheme.lookedUp, splitOnce_of_not_mem hcolon]
      · rw [hdomain, htext, List.splitOn_eq_singleton hcolon]
        rfl
      · rw [hpair, htext, hor, ProxyScheme.appendDefaultPort, if_neg (by simpa using hcolon)]
  | some port =>
      have htext : url.hostAndPort printer = url.host.text printer ++ ':' :: decimal port.toNat := by
        unfold Url.hostAndPort
        rw [hp]
      have hor : url.portOr url.defaultPort = port.toNat := by
        unfold Url.portOr
        rw [hp]
      refine ⟨⟨_, hform, ?_⟩, ⟨_, hform, ?_⟩, ?_⟩
      · rw [hlookup, htext, hor, ProxyScheme.lookedUp, splitOnce_append hcolon]
        simp only [parseU16_decimal port.toNat_lt, Option.getD_some]
      · rw [hdomain, htext, List.splitOn_append_cons_self_of_not_mem hcolon]
        rfl
      · rw [hpair, htext, hor, ProxyScheme.appendDefaultPort, if_pos (by simp)]

/-- The host in front of the first colon of an IPv6 host is no IPv6 host. -/
theorem not_splitsRight_ipv6 {socketAddrs : Url → Except ProxyError (List SocketAddr)} {url : Url}
    {scheme : ProxyScheme} (hparse : ProxyScheme.parse printer socketAddrs url = .ok scheme)
    (hhttp : url.scheme = "http".toList ∨ url.scheme = "https".toList)
    (h : url.host.isIpv6 = true) : ¬ SplitsRight printer url scheme := by
  intro hsplits
  obtain ⟨-, hdomain, -⟩ := stored_of_parse hparse hhttp
  obtain ⟨ip, hip⟩ : ∃ ip, url.host = .ipv6 ip := by
    cases hhost : url.host with
    | ipv6 ip => exact ⟨ip, rfl⟩
    | _ =>
        rw [hhost] at h
        cases h
  obtain ⟨host, hhost, hfound⟩ := hsplits.domain
  rw [hip] at hhost
  have hcolon : ':' ∈ host := by
    rcases List.mem_cons.mp hhost with rfl | hhost
    · exact printer.colon_mem ip
    · rw [List.mem_singleton.mp hhost]
      exact List.mem_append_left _ (List.mem_cons_of_mem _ (printer.colon_mem ip))
  have htext : ':' ∈ url.hostAndPort printer := by
    unfold Url.hostAndPort
    rw [hip]
    exact List.mem_append_left _ (List.mem_append_left _
      (List.mem_cons_of_mem _ (printer.colon_mem ip)))
  -- the part in front of the first colon has no colon
  obtain ⟨front, back, hsplit, hfront⟩ := List.eq_append_cons_of_mem htext
  rw [hdomain, hsplit, List.splitOn_append_cons_self_of_not_mem hfront] at hfound
  cases hfound
  exact hfront hcolon

end

/-! ## The request -/

/-- The authority of a request: what stands between the method and the version. -/
def requestAuthority (request : Text) : Text :=
  ((request.takeWhile (· != '\r')).drop "CONNECT ".length).rdrop " HTTP/1.1".length

/-- An authority read as a host and a port; a host with colons must stand in brackets. -/
def readAuthority (authority : Text) : Option (Text × Nat) :=
  match ProxyScheme.splitOnce ':' authority.reverse with
  | none => none
  | some (port, host) =>
      match parseU16 port.reverse with
      | none => none
      | some port =>
          if host.reverse.contains ':' then
            if host.reverse.head? = some '[' ∧ host.head? = some ']' then
              some (host.reverse.tail.dropLast, port)
            else none
          else some (host.reverse, port)

namespace TargetAddr

/-- The host that a target names. -/
def host : TargetAddr → Text
  | .ip addr => addr.ip.display
  | .domain name _ => name

def port : TargetAddr → Nat
  | .ip addr => addr.port.toNat
  | .domain _ port => port.toNat

/-- A domain has no colon and no line break. -/
def IsPlain : TargetAddr → Prop
  | .ip _ => True
  | .domain name _ => ':' ∉ name ∧ '\r' ∉ name

def isIpv6 : TargetAddr → Bool
  | .ip (.v6 _ _ _ _) => true
  | _ => false

end TargetAddr

theorem lineBreak_not_mem_host {target : TargetAddr} (h : target.IsPlain) :
    '\r' ∉ target.host := by
  cases target with
  | domain name port => exact h.2
  | ip addr =>
      cases addr with
      | v4 ip port => exact ip.not_mem_display (by decide) (by decide)
      | v6 ip port flowinfo scopeId =>
          exact ip.not_mem_display (by decide) (by decide) (fun k => Nat.digitChar_ne '\r' (by decide))

/-- The authority is what `get_domain_and_port` gave. -/
theorem requestAuthority_connectRequest (encode : Text → Text) (intercept : ProxyScheme)
    {target : TargetAddr} (h : target.IsPlain) :
    requestAuthority (connectRequest encode intercept target) =
      target.host ++ ':' :: decimal target.port := by
  have hhost : (getDomainAndPort target).1 = target.host := by
    cases target <;> rfl
  have hport : (getDomainAndPort target).2.toNat = target.port := by
    cases target <;> rfl
  obtain ⟨authority, hauthority⟩ : ∃ authority,
      target.host ++ ':' :: decimal target.port = authority := ⟨_, rfl⟩
  have hbreak : '\r' ∉ authority := by
    have hdecimal := not_mem_decimal (show '\r'.isDigit = false by decide) target.port
    rw [← hauthority]
    simp [lineBreak_not_mem_host h, hdecimal]
  obtain ⟨rest, hrequest⟩ : ∃ rest, connectRequest encode intercept target =
      ("CONNECT ".toList ++ (authority ++ " HTTP/1.1".toList)) ++ '\r' :: rest := by
    unfold connectRequest makeRequest
    rw [hhost, hport, hauthority]
    cases intercept.maybeAuth with
    | none => exact ⟨_, by simp only [List.append_assoc, List.cons_append]; rfl⟩
    | some auth => exact ⟨_, by simp only [List.append_assoc, List.cons_append]; rfl⟩
  have hline : ∀ c ∈ "CONNECT ".toList ++ (authority ++ " HTTP/1.1".toList),
      (c != '\r') = true := by
    intro c hc
    rw [bne_iff_ne]
    rintro rfl
    rcases List.mem_append.mp hc with hc | hc
    · revert hc
      decide
    · rcases List.mem_append.mp hc with hc | hc
      · exact hbreak hc
      · revert hc
        decide
  have htake : (connectRequest encode intercept target).takeWhile (· != '\r') =
      "CONNECT ".toList ++ (authority ++ " HTTP/1.1".toList) := by
    rw [hrequest, List.takeWhile_append_of_pos hline, List.takeWhile_cons_of_neg (by decide),
      List.append_nil]
  have hversion : (authority ++ " HTTP/1.1".toList).length - " HTTP/1.1".length =
      authority.length := by
    rw [List.length_append]
    exact Nat.add_sub_cancel _ 9
  unfold requestAuthority
  rw [htake, List.drop_left' (by decide), List.rdrop, hversion, List.take_left' rfl, hauthority]

/-- The last colon is the one in front of the port. -/
theorem readAuthority_eq (host : Text) {port : Nat} (hport : port < 2 ^ 16) :
    readAuthority (host ++ ':' :: decimal port) =
      if host.contains ':' then
        if host.head? = some '[' ∧ host.reverse.head? = some ']' then
          some (host.tail.dropLast, port)
        else none
      else some (host, port) := by
  have hcolon : ':' ∉ (decimal port).reverse := by
    rw [List.mem_reverse]
    exact not_mem_decimal (by decide) port
  have hreverse : (host ++ ':' :: decimal port).reverse =
      (decimal port).reverse ++ ':' :: host.reverse := by simp
  unfold readAuthority
  rw [hreverse, splitOnce_append hcolon]
  simp only [List.reverse_reverse, parseU16_decimal hport]

/-- The request names its target exactly when the target is no IPv6 address. -/
theorem readAuthority_connectRequest_iff (encode : Text → Text) (intercept : ProxyScheme)
    {target : TargetAddr} (h : target.IsPlain) :
    readAuthority (requestAuthority (connectRequest encode intercept target)) =
        some (target.host, target.port) ↔
      target.isIpv6 = false := by
  have hport : target.port < 2 ^ 16 := by
    cases target with
    | ip addr => exact addr.port.toNat_lt
    | domain name port => exact port.toNat_lt
  rw [requestAuthority_connectRequest encode intercept h, readAuthority_eq _ hport]
  have hplain : ':' ∉ target.host →
      (if target.host.contains ':' then
        if target.host.head? = some '[' ∧ target.host.reverse.head? = some ']' then
          some (target.host.tail.dropLast, target.port)
        else none
      else some (target.host, target.port)) = some (target.host, target.port) := by
    intro hcolon
    rw [if_neg (by simpa using hcolon)]
  cases target with
  | domain name port => exact ⟨fun _ => rfl, fun _ => hplain h.1⟩
  | ip addr =>
      cases addr with
      | v4 ip port =>
          exact ⟨fun _ => rfl, fun _ => hplain (ip.not_mem_display (by decide) (by decide))⟩
      | v6 ip port flowinfo scopeId =>
          -- the printed address has colons and no bracket
          have hcontains : ip.display.contains ':' = true := by
            simpa using ip.colon_mem_display
          have hhead : ip.display.head? ≠ some '[' := by
            intro hhead
            exact ip.not_mem_display (by decide) (by decide)
              (fun k => Nat.digitChar_ne '[' (by decide)) (List.mem_of_mem_head? hhead)
          constructor
          · intro hread
            change (if ip.display.contains ':' then
              if ip.display.head? = some '[' ∧ ip.display.reverse.head? = some ']' then
                some (ip.display.tail.dropLast, _) else none
              else some (ip.display, _)) = _ at hread
            rw [if_pos hcontains, if_neg (fun h => hhead h.1)] at hread
            cases hread
          · intro hfalse
            cases hfalse

/-! ## The proxy and the target -/

/-- For a proxy read from an HTTP URL and a target: the three functions split the stored host
right and the request names the target, exactly when neither host is an IPv6 address. -/
theorem authorities_agree_iff {printer : UrlPrinter}
    {socketAddrs : Url → Except ProxyError (List SocketAddr)} {url : Url} {scheme : ProxyScheme}
    (hparse : ProxyScheme.parse printer socketAddrs url = .ok scheme)
    (hhttp : url.scheme = "http".toList ∨ url.scheme = "https".toList)
    (encode : Text → Text) {target : TargetAddr} (htarget : target.IsPlain) :
    (SplitsRight printer url scheme ∧
      readAuthority (requestAuthority (connectRequest encode scheme target)) =
        some (target.host, target.port)) ↔
      url.host.isIpv6 = false ∧ target.isIpv6 = false := by
  rw [readAuthority_connectRequest_iff encode scheme htarget]
  refine and_congr_left' ⟨fun hsplits => ?_, splitsRight_of_plain hparse hhttp⟩
  rw [Bool.eq_false_iff]
  exact fun hipv6 => not_splitsRight_ipv6 hparse hhttp hipv6 hsplits

/-- The printer of the standard library. -/
def stdPrinter : UrlPrinter := { ipv6 := Ipv6Addr.display, colon_mem := Ipv6Addr.colon_mem_display }

/-- `https://` with a host and port 8080. -/
def secureUrl (host : UrlHost) : Url :=
  { scheme := "https".toList, username := [], password := none, host, port := some 8080 }

theorem authorities_agree_sample :
    SplitsRight stdPrinter (secureUrl (.ipv4 ⟨[10, 0, 0, 1], rfl⟩))
        (.https none "10.0.0.1:8080".toList) ∧
      readAuthority (requestAuthority (connectRequest id (.https none "10.0.0.1:8080".toList)
        (.domain "example.com".toList 443))) = some ("example.com".toList, 443) :=
  (authorities_agree_iff
    (show ProxyScheme.parse stdPrinter (fun _ => .ok [])
      (secureUrl (.ipv4 ⟨[10, 0, 0, 1], rfl⟩)) = .ok (.https none "10.0.0.1:8080".toList) by
        decide +kernel)
    (.inr rfl) id
    (show (TargetAddr.domain "example.com".toList 443).IsPlain from
      ⟨by decide, by decide⟩)).mpr (by decide)

/-- The proxy `https://[::1]:8080` is looked up as `[` at the default port, and a request for
the address `::1` at port 443 names `::1:443`. -/
theorem ipv6_hosts_are_cut :
    (¬ ∀ (url : Url) (scheme : ProxyScheme),
      ProxyScheme.parse stdPrinter (fun _ => .ok []) url = .ok scheme →
      url.scheme = "http".toList ∨ url.scheme = "https".toList →
      ∃ host ∈ url.host.forms stdPrinter,
        scheme.lookup = some (host, url.portOr url.defaultPort)) ∧
    requestAuthority (connectRequest id (.https none "10.0.0.1:8080".toList)
      (.ip (.v6 ⟨List.replicate 15 0 ++ [1], rfl⟩ 443 0 0))) = "::1:443".toList := by
  refine ⟨fun h => ?_, by decide +kernel⟩
  have hone := h (secureUrl (.ipv6 ⟨List.replicate 15 0 ++ [1], rfl⟩)) _ rfl (.inr rfl)
  revert hone
  decide +kernel

end HbbCommon.Net
