import HbbCommon.Base.ByteFields
import HbbCommon.Base.Machine

/-!
# Mangled addresses

Routers that scan packets for addresses of their own pool rewrite them, so an IPv4
address goes over the wire added to the clock, with the clock beside it. `encode` puts
three fields into one 128-bit number and strips its trailing zero bytes; `decode` pads
the bytes again and subtracts the clock from the other two fields.

The two subtractions of `decode` are checked: it has no value where the program would
panic. The bytes come from the network, so which strings have a value is a question of
its own.
-/

namespace HbbCommon.Net

open HbbCommon.Base

/-! ## Addresses -/

/-- `Ipv4Addr`: its octets. -/
abbrev Ipv4Addr := FixedBytes 4

/-- `Ipv6Addr`: its octets. -/
abbrev Ipv6Addr := FixedBytes 16

namespace Ipv6Addr

/-- `is_loopback`: `::1`. -/
def isLoopback (ip : Ipv6Addr) : Bool := ip.val == List.replicate 15 0 ++ [1]

/-- `to_ipv4`: the last four octets of `::a.b.c.d` and of `::ffff:a.b.c.d`. -/
def toIpv4 (ip : Ipv6Addr) : Option Ipv4Addr :=
  if ip.val.take 12 = List.replicate 12 0 ∨
      ip.val.take 12 = List.replicate 10 0 ++ [255, 255] then
    some ⟨ip.val.drop 12, by rw [List.length_drop, ip.property]⟩
  else
    none

end Ipv6Addr

/-- `SocketAddr`. -/
inductive SocketAddr
  | v4 (ip : Ipv4Addr) (port : UInt16)
  | v6 (ip : Ipv6Addr) (port : UInt16) (flowinfo scopeId : UInt32)
  deriving DecidableEq

/-- `IpAddr`. -/
inductive IpAddr
  | v4 (ip : Ipv4Addr)
  | v6 (ip : Ipv6Addr)
  deriving DecidableEq

namespace SocketAddr

/-- `SocketAddr::new`. -/
def new (ip : IpAddr) (port : UInt16) : SocketAddr :=
  match ip with
  | .v4 ip => .v4 ip port
  | .v6 ip => .v6 ip port 0 0

def ip : SocketAddr → IpAddr
  | .v4 ip _ => .v4 ip
  | .v6 ip _ _ _ => .v6 ip

def port : SocketAddr → UInt16
  | .v4 _ port => port
  | .v6 _ port _ _ => port

end SocketAddr

def tryIntoV4 (addr : SocketAddr) : SocketAddr :=
  match addr with
  | .v6 ip port _ _ =>
      if ip.isLoopback then addr
      else
        match ip.toIpv4 with
        | some v4 => .new (.v4 v4) port
        | none => addr
  | .v4 _ _ => addr

/-- `Config::get_any_listen_addr`. -/
def getAnyListenAddr (isIpv4 : Bool) : SocketAddr :=
  if isIpv4 then .new (.v4 (FixedBytes.replicate 4 0)) 0
  else .new (.v6 (FixedBytes.replicate 16 0)) 0

/-! ## The two directions -/

namespace AddrMangle

/-- The microseconds of the clock as the low 32 bits; a clock before the epoch counts
as zero. -/
def clockBits (now : Option Nat) : Nat := now.getD 0 % 2 ^ 32

/-- The 128-bit number of an IPv4 address, a port and a clock. -/
def mangled (ip tm port : Nat) : Nat :=
  ((ip + tm) <<< 49) ||| (tm <<< 17) ||| (port + (tm &&& 0xFFFF))

/-- How many bytes the loop over the reversed bytes counts. -/
def nPadding (bytes : List UInt8) : Nat := (bytes.reverse.takeWhile (· == 0)).length

/-- `AddrMangle::encode`, at the clock `now` in microseconds since the epoch. -/
def encode (addr : SocketAddr) (now : Option Nat) : List UInt8 :=
  match tryIntoV4 addr with
  | .v4 ip port =>
      let bytes := toLeBytes 16 (mangled (ofLeBytes ip.val) (clockBits now) port.toNat)
      bytes.take (16 - nPadding bytes)
  | .v6 ip port _ _ => ip.val ++ toLeBytes 2 port.toNat

/-- `padded[..bytes.len()].copy_from_slice(bytes)`; no value when `bytes` is longer. -/
def copyFromSlice (padded bytes : List UInt8) : Option (List UInt8) :=
  if bytes.length ≤ padded.length then some (bytes ++ padded.drop bytes.length) else none

/-- `AddrMangle::decode`. -/
def decode (bytes : List UInt8) : Option SocketAddr :=
  if bytes.length > 16 then
    if bytes.length ≠ 18 then
      some (getAnyListenAddr false)
    else
      let port := ((readFixed 2 bytes 16).getD (FixedBytes.replicate 2 0)).val
      let ip := (readFixed 16 bytes 0).getD (FixedBytes.replicate 16 0)
      some (.new (.v6 ip) (UInt16.ofNat (ofLeBytes port)))
  else do
    let padded ← copyFromSlice (List.replicate 16 0) bytes
    let number := ofLeBytes padded
    let tm := (number >>> 17) &&& u32Max
    let ip ← checkedSub (number >>> 49) tm
    let port ← checkedSub (number &&& 0xFFFFFF) (tm &&& 0xFFFF)
    some (.v4 ⟨toLeBytes 4 ip, length_toLeBytes 4 ip⟩ (UInt16.ofNat port))

end AddrMangle

end HbbCommon.Net
