import HbbCommon.Config.Secretbox
import HbbCommon.Files.Job

/-!
# Address book and group

Both are kept as the compressed and encrypted text of a JSON document, each in a file of its
own, with the same steps. The file is created before there is something to write into it; what
cannot be read is removed. Calls on files succeed.
-/

namespace HbbCommon.Config

open HbbCommon.Base

/-- The libraries, and the key of the cipher. -/
structure BookLibs where
  zstd : Files.Libs
  sodium : Sodium
  source : KeySource

/-- `serde_json` on a book, and the book that stands for none. -/
structure BookJson (β : Type) where
  fromStr : String → Option β
  default : β

def configDecompressMaxLen : Nat := 64 * 1024 * 1024

/-- What is in the new file after a `store`. -/
def storedBook (libs : BookLibs) (drawn : Nat) (json : String) : Bytes :=
  let data := Files.compress libs.zstd (utf8Bytes json)
  let maxLen := 64 * 1024 * 1024
  -- the file has been created, and is empty
  if data.length > maxLen then []
  else (libs.sodium.symmetricCrypt libs.source drawn data true).getD []

/-- The book in a file, when there is one that can be read. -/
def readBook {β : Type} (libs : BookLibs) (format : BookJson β) (file : Option Bytes) :
    Option β := do
  let data ← file
  let data ← libs.sodium.symmetricCrypt libs.source 0 data false
  match Files.decompressLimited libs.zstd data configDecompressMaxLen with
  | .ok data => format.fromStr (fromUtf8Lossy data)
  | .error _ => none

/-- The two files. -/
structure BookFiles where
  ab : Option Bytes
  group : Option Bytes

namespace Ab

def remove (s : BookFiles) : BookFiles := { s with ab := none }

def store (libs : BookLibs) (drawn : Nat) (json : String) (s : BookFiles) : BookFiles :=
  { s with ab := some (storedBook libs drawn json) }

def load {β : Type} (libs : BookLibs) (format : BookJson β) (s : BookFiles) : β × BookFiles :=
  match readBook libs format s.ab with
  | some ab => (ab, s)
  | none => (format.default, remove s)

end Ab

namespace Group

def remove (s : BookFiles) : BookFiles := { s with group := none }

def store (libs : BookLibs) (drawn : Nat) (json : String) (s : BookFiles) : BookFiles :=
  { s with group := some (storedBook libs drawn json) }

def load {β : Type} (libs : BookLibs) (format : BookJson β) (s : BookFiles) : β × BookFiles :=
  match readBook libs format s.group with
  | some group => (group, s)
  | none => (format.default, remove s)

end Group

end HbbCommon.Config
