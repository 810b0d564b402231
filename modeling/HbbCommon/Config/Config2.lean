import HbbCommon.Base.OrdMap
import HbbCommon.Config.Crypt

/-!
# The second configuration

`CONFIG2` holds the options and, as encrypted texts, the trusted devices and the paired viewers;
`TRUSTED_DEVICES` and `PAIRED_VIEWERS` are caches of the two lists with a mark that they are
synced. The two lists are handled alike, so what is done with one is a definition with the list
as its argument. Storing the configuration in its file changes none of this.
-/

namespace HbbCommon.Config

open HbbCommon.Base

abbrev Bytes := List UInt8

structure Socks5Server where
  proxy : String
  username : String
  password : String
  deriving DecidableEq, Repr

structure Config2 where
  rendezvousServer : String
  natType : Int32
  serial : Int32
  unlockPin : String
  trustedDevices : String
  pairedViewers : String
  socks : Option Socks5Server
  options : OrdMap String String
  deriving DecidableEq

structure TrustedDevice where
  hwid : Bytes
  time : Int64
  id : String
  name : String
  platform : String
  deriving DecidableEq, Repr

structure PairedViewer where
  signPk : Bytes
  time : Int64
  id : String
  name : String
  platform : String
  scope : String
  deriving DecidableEq, Repr

def TrustedDevice.outdate (now : Int64) (d : TrustedDevice) : Bool :=
  d.time + 90 * 24 * 60 * 60 * 1000 < now

def PairedViewer.outdate (now : Int64) (d : PairedViewer) : Bool :=
  d.time + 30 * 24 * 60 * 60 * 1000 < now

/-- `CONFIG2`, and the caches with their marks. -/
structure Statics where
  config2 : Config2
  trustedDevices : List TrustedDevice × Bool
  pairedViewers : List PairedViewer × Bool
  deriving DecidableEq

/-- `serde_json` on a list, where a text that is no list reads as the empty one. -/
structure JsonList (α : Type) where
  toString : List α → String
  fromStr : String → List α

/-- The libraries of the configuration. -/
structure ConfigLibs where
  crypt : Crypt
  devices : JsonList TrustedDevice
  viewers : JsonList PairedViewer

/-! ## The two lists -/

/-- One of the two lists: where it is, and what it is made of. -/
structure DeviceList (α : Type) where
  stored : Config2 → String
  setStored : String → Config2 → Config2
  cache : Statics → List α × Bool
  setCache : List α × Bool → Statics → Statics
  json : JsonList α
  outdate : Int64 → α → Bool

def trustedDevices (libs : ConfigLibs) : DeviceList TrustedDevice where
  stored config := config.trustedDevices
  setStored text config := { config with trustedDevices := text }
  cache s := s.trustedDevices
  setCache cache s := { s with trustedDevices := cache }
  json := libs.devices
  outdate := TrustedDevice.outdate

def pairedViewers (libs : ConfigLibs) : DeviceList PairedViewer where
  stored config := config.pairedViewers
  setStored text config := { config with pairedViewers := text }
  cache s := s.pairedViewers
  setCache cache s := { s with pairedViewers := cache }
  json := libs.viewers
  outdate := PairedViewer.outdate

namespace DeviceList

variable {α : Type} (l : DeviceList α)

def maxLen : Nat := 1024 * 1024

def keep (now : Int64) (list : List α) : List α := list.filter (fun d => !l.outdate now d)

/-- The critical section of `set_trusted_devices` and `set_paired_viewers`: the list and its text
are ready. -/
def writeStored (crypt : Crypt) (nonce : Nat) (list : List α) (s : Statics) : Statics :=
  let text := crypt.encryptStrOrOriginal nonce (l.json.toString list) passwordEncVersion maxLen
  l.setCache (list, true) { s with config2 := l.setStored text s.config2 }

/-- `set_trusted_devices` and `set_paired_viewers` -/
def set (crypt : Crypt) (now : Int64) (nonce : Nat) (list : List α) (s : Statics) : Statics :=
  let list := l.keep now list
  if (l.json.toString list).utf8ByteSize > maxLen then s
  else l.writeStored crypt nonce list s

/-- The decrypted list in `CONFIG2`, when it can be decrypted, and whether to store it again. -/
def read (crypt : Crypt) (config : Config2) : Option (List α × Bool) :=
  match crypt.decryptStrOrOriginal (l.stored config) passwordEncVersion with
  | (text, true, store) => some (l.json.fromStr text, store)
  | (_, false, _) => none

/-- `get_trusted_devices` and `get_paired_viewers` -/
def get (crypt : Crypt) (now : Int64) (nonce : Nat) (s : Statics) : List α × Statics :=
  if (l.cache s).2 then ((l.cache s).1, s)
  else
    match l.read crypt s.config2 with
    | none => ([], s)
    | some (list, store) =>
        let kept := l.keep now list
        let s := if store ∨ kept.length ≠ list.length then l.set crypt now nonce kept s else s
        (kept, l.setCache (kept, true) s)

end DeviceList

/-! ## Operations on the lists -/

section

variable (libs : ConfigLibs) (now : Int64) (nonces : Nat → Nat)

/-- `get_trusted_devices`; the nonces are those of its encryptions. -/
def getTrustedDevices (s : Statics) : List TrustedDevice × Statics :=
  (trustedDevices libs).get libs.crypt now (nonces 0) s

/-- A list that is read, changed and written back. -/
def DeviceList.update {α : Type} (l : DeviceList α) (change : List α → List α) (s : Statics) :
    Statics :=
  let (list, s) := l.get libs.crypt now (nonces 0) s
  l.set libs.crypt now (nonces 1) (change list) s

def withDevice (device : TrustedDevice) (devices : List TrustedDevice) : List TrustedDevice :=
  devices.filter (fun d => d.hwid ≠ device.hwid) ++ [device]

def withoutDevices (hwids : List Bytes) (devices : List TrustedDevice) : List TrustedDevice :=
  devices.filter (fun d => d.hwid ∉ hwids)

def addTrustedDevice (device : TrustedDevice) : Statics → Statics :=
  (trustedDevices libs).update libs now nonces (withDevice device)

def removeTrustedDevices (hwids : List Bytes) : Statics → Statics :=
  (trustedDevices libs).update libs now nonces (withoutDevices hwids)

def clearTrustedDevices : Statics → Statics :=
  (trustedDevices libs).set libs.crypt now (nonces 0) []

def getPairedViewers (s : Statics) : List PairedViewer × Statics :=
  (pairedViewers libs).get libs.crypt now (nonces 0) s

def withViewer (viewer : PairedViewer) (viewers : List PairedViewer) : List PairedViewer :=
  viewers.filter (fun d => d.scope ≠ viewer.scope ∨ d.signPk ≠ viewer.signPk) ++ [viewer]

def withoutViewers (signPks : List Bytes) (viewers : List PairedViewer) : List PairedViewer :=
  viewers.filter (fun d => d.signPk ∉ signPks)

def addPairedViewer (viewer : PairedViewer) (s : Statics) : Statics :=
  if viewer.signPk = [] ∨ viewer.scope = "" then s
  else (pairedViewers libs).update libs now nonces (withViewer viewer) s

def removePairedViewers (signPks : List Bytes) : Statics → Statics :=
  (pairedViewers libs).update libs now nonces (withoutViewers signPks)

def clearPairedViewers : Statics → Statics :=
  (pairedViewers libs).set libs.crypt now (nonces 0) []

/-- Whether the list has the viewer. -/
def hasViewer (scope id : String) (signPk : Bytes) (viewers : List PairedViewer) : Bool :=
  viewers.any (fun viewer => !viewer.outdate now && viewer.scope == scope && viewer.id == id &&
    viewer.signPk == signPk)

def hasPairedViewer (scope id : String) (signPk : Bytes) (s : Statics) : Bool × Statics :=
  if scope = "" ∨ signPk = [] then (false, s)
  else
    let (viewers, s) := getPairedViewers libs now nonces s
    (hasViewer now scope id signPk viewers, s)

end

/-- `Config2::set` -/
def Config2.set (config : Config2) (s : Statics) : Bool × Statics :=
  if s.config2 = config then (false, s) else (true, { s with config2 := config })

end HbbCommon.Config
