import HbbCommon.Base.ByteFields

/-!
# Fingerprints

A fingerprint is a hash over chosen fields of a description of the machine. The hasher gives
all but the last 32 bytes to SHA-512 and encrypts the last 32 in two blocks. Fingerprints are
cached under the names of their fields, written one behind the other. SHA-512 and the
description are parameters.
-/

namespace HbbCommon.Platform

open HbbCommon.Base

abbrev Bytes := List UInt8

/-! ## The block cipher -/

/-- `[u8; 16]` -/
abbrev Block := FixedBytes 16

namespace Block

def make (f : Nat → UInt8) : Block := ⟨(List.range 16).map f, by simp⟩

def byte (b : Block) (i : Nat) : UInt8 := b.val.getD i 0

end Block

def table : List UInt8 :=
  [0x63, 0x7c, 0x77, 0x7b, 0xf2, 0x6b, 0x6f, 0xc5, 0x30, 0x01, 0x67, 0x2b,
    0xfe, 0xd7, 0xab, 0x76, 0xca, 0x82, 0xc9, 0x7d, 0xfa, 0x59, 0x47, 0xf0,
    0xad, 0xd4, 0xa2, 0xaf, 0x9c, 0xa4, 0x72, 0xc0, 0xb7, 0xfd, 0x93, 0x26,
    0x36, 0x3f, 0xf7, 0xcc, 0x34, 0xa5, 0xe5, 0xf1, 0x71, 0xd8, 0x31, 0x15,
    0x04, 0xc7, 0x23, 0xc3, 0x18, 0x96, 0x05, 0x9a, 0x07, 0x12, 0x80, 0xe2,
    0xeb, 0x27, 0xb2, 0x75, 0x09, 0x83, 0x2c, 0x1a, 0x1b, 0x6e, 0x5a, 0xa0,
    0x52, 0x3b, 0xd6, 0xb3, 0x29, 0xe3, 0x2f, 0x84, 0x53, 0xd1, 0x00, 0xed,
    0x20, 0xfc, 0xb1, 0x5b, 0x6a, 0xcb, 0xbe, 0x39, 0x4a, 0x4c, 0x58, 0xcf,
    0xd0, 0xef, 0xaa, 0xfb, 0x43, 0x4d, 0x33, 0x85, 0x45, 0xf9, 0x02, 0x7f,
    0x50, 0x3c, 0x9f, 0xa8, 0x51, 0xa3, 0x40, 0x8f, 0x92, 0x9d, 0x38, 0xf5,
    0xbc, 0xb6, 0xda, 0x21, 0x10, 0xff, 0xf3, 0xd2, 0xcd, 0x0c, 0x13, 0xec,
    0x5f, 0x97, 0x44, 0x17, 0xc4, 0xa7, 0x7e, 0x3d, 0x64, 0x5d, 0x19, 0x73,
    0x60, 0x81, 0x4f, 0xdc, 0x22, 0x2a, 0x90, 0x88, 0x46, 0xee, 0xb8, 0x14,
    0xde, 0x5e, 0x0b, 0xdb, 0xe0, 0x32, 0x3a, 0x0a, 0x49, 0x06, 0x24, 0x5c,
    0xc2, 0xd3, 0xac, 0x62, 0x91, 0x95, 0xe4, 0x79, 0xe7, 0xc8, 0x37, 0x6d,
    0x8d, 0xd5, 0x4e, 0xa9, 0x6c, 0x56, 0xf4, 0xea, 0x65, 0x7a, 0xae, 0x08,
    0xba, 0x78, 0x25, 0x2e, 0x1c, 0xa6, 0xb4, 0xc6, 0xe8, 0xdd, 0x74, 0x1f,
    0x4b, 0xbd, 0x8b, 0x8a, 0x70, 0x3e, 0xb5, 0x66, 0x48, 0x03, 0xf6, 0x0e,
    0x61, 0x35, 0x57, 0xb9, 0x86, 0xc1, 0x1d, 0x9e, 0xe1, 0xf8, 0x98, 0x11,
    0x69, 0xd9, 0x8e, 0x94, 0x9b, 0x1e, 0x87, 0xe9, 0xce, 0x55, 0x28, 0xdf,
    0x8c, 0xa1, 0x89, 0x0d, 0xbf, 0xe6, 0x42, 0x68, 0x41, 0x99, 0x2d, 0x0f,
    0xb0, 0x54, 0xbb, 0x16]

def subByte (b : UInt8) : UInt8 := table.getD b.toNat 0

/-- The constant of the word `i` of the expanded key. -/
def roundConstant (i : Nat) : UInt8 :=
  match i with
  | 4 => 0x01
  | 8 => 0x02
  | 12 => 0x04
  | 16 => 0x08
  | 20 => 0x10
  | 24 => 0x20
  | 28 => 0x40
  | 32 => 0x80
  | 36 => 0x1b
  | 40 => 0x36
  | _ => 0

/-- One turn of the loop of `expand_key`: the word `i` behind the words before it. -/
def expandWord (expandedKey : Bytes) (i : Nat) : Bytes :=
  let temp := (expandedKey.drop ((i - 1) * 4)).take 4
  let temp :=
    if i % 4 = 0 then
      let temp := (temp.rotateLeft 1).map subByte
      temp.modify 0 (· ^^^ roundConstant i)
    else temp
  expandedKey ++ List.zipWith (· ^^^ ·) ((expandedKey.drop ((i - 4) * 4)).take 4) temp

/-- `expand_key`, the round keys one behind the other. -/
def expandKey (key : Block) : Bytes := (List.range' 4 40).foldl expandWord key.val

def roundKey (expandedKey : Bytes) (round : Nat) : Block :=
  .make (fun i => expandedKey.getD (16 * round + i) 0)

def addRoundKey (state roundKey : Block) : Block :=
  .make (fun i => state.byte i ^^^ roundKey.byte i)

def subBytes (state : Block) : Block := .make (fun i => subByte (state.byte i))

/-- Row `r` of the state moves `r` columns. -/
def shiftRows (state : Block) : Block := .make (fun i => state.byte ((i + 4 * (i % 4)) % 16))

/-- The loop of `gf_mul`, with `a` shifted down and `temp` doubled in every turn. -/
def gfMulLoop : (turns : Nat) → (a temp p : UInt8) → UInt8
  | 0, _, _, p => p
  | turns + 1, a, temp, p =>
      if a = 0 then p
      else
        let p := if a &&& 1 ≠ 0 then p ^^^ temp else p
        let doubled := temp <<< 1
        gfMulLoop turns (a >>> 1) (if temp &&& 0x80 ≠ 0 then doubled ^^^ 0x1b else doubled) p

/-- `gf_mul`: after eight turns nothing is left of `a`. -/
def gfMul (a b : UInt8) : UInt8 := gfMulLoop 8 a b 0

/-- A column is four bytes; the row of a byte rotates the coefficients. -/
def mixColumns (state : Block) : Block :=
  .make (fun i =>
    let s := fun k => state.byte (i - i % 4 + (i % 4 + k) % 4)
    gfMul 0x02 (s 0) ^^^ gfMul 0x03 (s 1) ^^^ s 2 ^^^ s 3)

def finalizeBlock (input key : Block) : Block :=
  let roundKeys := expandKey key
  let state := addRoundKey input (roundKey roundKeys 0)
  let state := (List.range' 1 9).foldl (fun state round =>
    addRoundKey (mixColumns (shiftRows (subBytes state))) (roundKey roundKeys round)) state
  addRoundKey (shiftRows (subBytes state)) (roundKey roundKeys 10)

example : (finalizeBlock (.make (fun i => UInt8.ofNat (17 * i))) (.make UInt8.ofNat)).val =
    [0x69, 0xc4, 0xe0, 0xd8, 0x6a, 0x7b, 0x04, 0x30, 0xd8, 0xcd, 0xb7, 0x80, 0x70, 0xb4, 0xc5,
      0x5a] := by decide +kernel

/-! ## The hasher -/

structure FingerprintingInfo where
  eol : String
  endianness : String
  brand : String
  speedMax : String
  cores : String
  physicalCores : String
  memTotal : String
  platform : String
  arch : String
  id : String
  addr : String
  deriving DecidableEq, Repr

/-- What is fixed while the process runs. -/
structure Host where
  info : FingerprintingInfo
  sha512 : Bytes → FixedBytes 64

/-- `get_key`; the entropy it collects is not used. -/
def getKey : Block :=
  ⟨[0x5d, 0x12, 0x3f, 0x4a, 0x7e, 0xc1, 0x89, 0xb3, 0x91, 0xa4, 0x2b, 0x7f, 0x3c, 0xe2, 0x6d,
    0x15], rfl⟩

structure Sha512Hasher where
  /-- what SHA-512 has been given -/
  sha512 : Bytes
  key : Block
  buffer : Bytes

namespace Sha512Hasher

def new : Sha512Hasher := { sha512 := [], key := getKey, buffer := [] }

def update (h : Sha512Hasher) (data : Bytes) : Sha512Hasher :=
  if data.length ≤ 32 then { h with buffer := h.buffer ++ data }
  else
    let splitPoint := data.length - 32
    { h with sha512 := h.sha512 ++ data.take splitPoint, buffer := data.drop splitPoint }

/-- The bytes in front of zeros. -/
def block (bytes : Bytes) : Block := .make (fun i => bytes.getD i 0)

/-- The two blocks of the buffer. -/
def blocks (buffer : Bytes) : Block × Block :=
  let len := buffer.length
  if len ≥ 32 then
    (block ((buffer.drop (len - 32)).take 16), block (buffer.drop (len - 16)))
  else if len > 16 then (block (buffer.take (len - 16)), block (buffer.drop (len - 16)))
  else (block buffer, block [])

def finalize (host : Host) (h : Sha512Hasher) : Bytes :=
  let result := (host.sha512 h.sha512).val
  if h.buffer = [] then result
  else
    let (first, second) := blocks h.buffer
    result ++ (finalizeBlock first h.key).val ++ (finalizeBlock second h.key).val

end Sha512Hasher

/-! ## Fingerprints -/

/-- The field with this name. -/
def FingerprintingInfo.field (info : FingerprintingInfo) (param : String) : Option String :=
  match param with
  | "eol" => some info.eol
  | "endianness" => some info.endianness
  | "brand" => some info.brand
  | "speed_max" => some info.speedMax
  | "cores" => some info.cores
  | "physical_cores" => some info.physicalCores
  | "mem_total" => some info.memTotal
  | "platform" => some info.platform
  | "arch" => some info.arch
  | "id" => some info.id
  | "addr" => some info.addr
  | _ => none

def calculateFingerprint (host : Host) (parameters : List String) : Bytes :=
  let fingerprintString := String.join (parameters.filterMap host.info.field)
  (Sha512Hasher.new.update (utf8Bytes fingerprintString)).finalize host

def allParameters : List String :=
  ["eol", "endianness", "brand", "speed_max", "cores", "physical_cores", "mem_total", "platform",
    "arch", "id", "addr"]

/-- A call of `get_fingerprint`. -/
structure FingerprintCall where
  only : Option (List String)
  except : Option (List String)
  deriving DecidableEq, Repr

namespace FingerprintCall

def parameters (call : FingerprintCall) : List String :=
  match call.only, call.except with
  | some onlyParams, _ => onlyParams
  | none, some exceptParams => allParameters.filter (fun param => param ∉ exceptParams)
  | none, none => allParameters

def cacheKey (call : FingerprintCall) : String := String.join call.parameters

/-- What the call computes without the cache. -/
def calculated (host : Host) (call : FingerprintCall) : Bytes :=
  calculateFingerprint host call.parameters

end FingerprintCall

/-- `CACHED_FINGERPRINTS`: there is none before the description is made. -/
abbrev CachedFingerprints := Option (String → Option Bytes)

def getFingerprint (host : Host) (cached : CachedFingerprints) (call : FingerprintCall) :
    Bytes × CachedFingerprints :=
  match cached with
  | some cache =>
      match cache call.cacheKey with
      | some fingerprint => (fingerprint, some cache)
      | none =>
          let fingerprint := call.calculated host
          (fingerprint, some (Function.update cache call.cacheKey (some fingerprint)))
  -- the first call makes the description, and with it an empty cache that it does not fill
  | none => (call.calculated host, some (fun _ => none))

/-- The answers to the calls of a process. -/
def fingerprints (host : Host) : CachedFingerprints → List FingerprintCall → List Bytes
  | _, [] => []
  | cached, call :: calls =>
      let (fingerprint, cached) := getFingerprint host cached call
      fingerprint :: fingerprints host cached calls

end HbbCommon.Platform
