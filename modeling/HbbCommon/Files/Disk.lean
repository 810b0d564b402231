import HbbCommon.Files.FileSys

/-!
# A disk

A file system without links that only one process works on. A path leads to a directory or
to the number of a file; an open file keeps the number, so it is the same file when it is
renamed. The text of a path matters by its components, but a file has no separator behind
its name. Directories are not renamed.
-/

namespace HbbCommon.Files

open HbbCommon.Base

/-- What a path leads by. -/
abbrev Key := List Component

inductive Node
  | dir
  | file (number : Nat)
  deriving DecidableEq, Repr

structure Disk where
  node : Key → Option Node
  data : Nat → Bytes
  modified : Nat → Nat
  /-- the numbers from here on are free -/
  next : Nat
  clock : Nat

/-- An open file. -/
structure Handle where
  /-- none for a directory -/
  number : Option Nat
  pos : Nat
  readable : Bool
  writable : Bool
  deriving DecidableEq, Repr

namespace Path

def key (p : Path) : Key := p.components.filter (· ≠ .curDir)

/-- Where a file of that path is. -/
def fileKey (p : Path) : Option Key :=
  match (segments p).getLast?.bind component with
  | some (.normal _) => some p.key
  | _ => none

end Path

namespace Disk

/-- The working directory and the root are directories. -/
def nodeAt (d : Disk) (k : Key) : Option Node :=
  if k = [] ∨ k = [.rootDir] then some .dir else d.node k

def lookup (d : Disk) (p : Path) : Option Node :=
  match p.fileKey with
  | some k => d.nodeAt k
  | none =>
      match d.nodeAt p.key with
      | some .dir => some .dir
      | _ => none

def setNode (d : Disk) (k : Key) (node : Option Node) : Disk :=
  { d with node := Function.update d.node k node }

/-- The data of a file, written now. -/
def setData (d : Disk) (number : Nat) (data : Bytes) : Disk :=
  { d with
    data := Function.update d.data number data
    modified := Function.update d.modified number d.clock }

/-- The key of a path at which a file may be made: its parent is a directory. -/
def placeOf (d : Disk) (p : Path) : Except IoError Key :=
  match p.fileKey with
  | none => .error .other
  | some k =>
      match d.nodeAt k.dropLast with
      | some .dir => .ok k
      | some (.file _) => .error .other
      | none => .error .notFound

/-- The number of the file at a place: that of the file there, or of a new and empty one. -/
def fileAtPlace (d : Disk) (k : Key) : Except IoError (Nat × Disk) :=
  match d.nodeAt k with
  | some .dir => .error .other
  | some (.file number) => .ok (number, d)
  | none =>
      .ok (d.next, { (d.setNode k (some (.file d.next))).setData d.next [] with next := d.next + 1 })

/-- The file of a path that is opened for writing, made where there is none. -/
def openToWrite (d : Disk) (p : Path) : Except IoError (Nat × Disk) :=
  match d.placeOf p with
  | .error error => .error error
  | .ok k => d.fileAtPlace k

/-- The file of a path, made where there is none and emptied where there is one. -/
def createFile (d : Disk) (p : Path) : Except IoError (Nat × Disk) :=
  match d.openToWrite p with
  | .error error => .error error
  | .ok (number, d) => .ok (number, d.setData number [])

/-- Bytes written at a position, behind zeros where the data ends before it. -/
def overwrite (old : Bytes) (pos : Nat) (new : Bytes) : Bytes :=
  (old ++ List.replicate (pos - old.length) 0).take pos ++ new ++ old.drop (pos + new.length)

/-- An operation that fails leaves the disk alone. -/
def orKeep {α : Type} (d : Disk) (result : Except IoError (α × Disk)) : Except IoError α × Disk :=
  match result with
  | .ok (a, d) => (.ok a, d)
  | .error error => (.error error, d)

def mkdir (d : Disk) (p : Path) : Except IoError (Unit × Disk) :=
  match d.nodeAt p.key with
  | some _ => .error .other
  | none =>
      match d.nodeAt p.key.dropLast with
      | some .dir => .ok ((), d.setNode p.key (some .dir))
      | some (.file _) => .error .other
      | none => .error .notFound

def removeFile (d : Disk) (p : Path) : Except IoError (Unit × Disk) :=
  match d.lookup p with
  | some (.file _) => .ok ((), d.setNode p.key none)
  | some .dir => .error .other
  | none => .error .notFound

def rename (d : Disk) (source target : Path) : Except IoError (Unit × Disk) :=
  match d.lookup source with
  | none => .error .notFound
  | some .dir => .error .other
  | some (.file number) =>
      match d.placeOf target with
      | .error error => .error error
      | .ok k =>
          match d.nodeAt k with
          | some .dir => .error .other
          | _ => .ok ((), (d.setNode source.key none).setNode k (some (.file number)))

def metadataOf (d : Disk) (number : Option Nat) : Metadata :=
  match number with
  | some number => { modified := d.modified number, len := (d.data number).length }
  | none => { modified := 0, len := 0 }

def metadata (d : Disk) (p : Path) : Except IoError (Metadata × Disk) :=
  match d.lookup p with
  | some (.file number) => .ok (d.metadataOf (some number), d)
  | some .dir => .ok (d.metadataOf none, d)
  | none => .error .notFound

def readToString (d : Disk) (p : Path) : Except IoError (String × Disk) :=
  match d.lookup p with
  | some (.file number) =>
      match fromUtf8 (d.data number) with
      | some text => .ok (text, d)
      | none => .error .other
  | some .dir => .error .other
  | none => .error .notFound

def setFileMtime (d : Disk) (p : Path) (time : Nat) : Except IoError (Unit × Disk) :=
  match d.lookup p with
  | some (.file number) =>
      .ok ((), { d with modified := Function.update d.modified number time })
  | some .dir => .ok ((), d)
  | none => .error .notFound

def writeFile (d : Disk) (p : Path) (data : Bytes) : Except IoError (Unit × Disk) :=
  match d.createFile p with
  | .error error => .error error
  | .ok (number, d) => .ok ((), d.setData number data)

def openFile (d : Disk) (p : Path) : Except IoError (Handle × Disk) :=
  match d.lookup p with
  | some (.file number) =>
      .ok ({ number := some number, pos := 0, readable := true, writable := false }, d)
  | some .dir => .ok ({ number := none, pos := 0, readable := true, writable := false }, d)
  | none => .error .notFound

/-- A file that is open for writing only, from its start. -/
def writerOf (result : Except IoError (Nat × Disk)) : Except IoError (Handle × Disk) :=
  result.map (fun (number, d) =>
    ({ number := some number, pos := 0, readable := false, writable := true }, d))

def read (d : Disk) (h : Handle) (n : Nat) :
    Except IoError (({ data : Bytes // data.length ≤ n } × Handle) × Disk) :=
  match h.number, h.readable with
  | some number, true =>
      let data := ((d.data number).drop h.pos).take n
      .ok ((⟨data, List.length_take_le _ _⟩, { h with pos := h.pos + data.length }), d)
  | _, _ => .error .other

def writeAll (d : Disk) (h : Handle) (data : Bytes) : Except IoError (Handle × Disk) :=
  match h.number, h.writable with
  | some number, true =>
      .ok ({ h with pos := h.pos + data.length },
        d.setData number (overwrite (d.data number) h.pos data))
  | _, _ => .error .other

/-- The disk as a file system. -/
def fileSys : FileSys Disk Handle where
  symlinkMetadata p := .ofFun fun d =>
    (if (d.lookup p).isSome then .ok false else .error .notFound, d)
  pathExists p d := ((d.lookup p).isSome, d)
  isDir p d := (d.lookup p == some .dir, d)
  isFile p d := ((d.lookup p).isSome && d.lookup p != some .dir, d)
  metadata p := .ofFun fun d => d.orKeep (d.metadata p)
  readToString p := .ofFun fun d => d.orKeep (d.readToString p)
  mkdir p := .ofFun fun d => d.orKeep (d.mkdir p)
  removeFile p := .ofFun fun d => d.orKeep (d.removeFile p)
  rename source target := .ofFun fun d => d.orKeep (d.rename source target)
  setFileMtime p time := .ofFun fun d => d.orKeep (d.setFileMtime p time)
  writeFile p data := .ofFun fun d => d.orKeep (d.writeFile p data)
  openFile p := .ofFun fun d => d.orKeep (d.openFile p)
  create p := .ofFun fun d => d.orKeep (writerOf (d.createFile p))
  openWrite p := .ofFun fun d => d.orKeep (writerOf (d.openToWrite p))
  seek h offset := return { h with pos := offset }
  read h n := .ofFun fun d => d.orKeep (d.read h n)
  writeAll h data := .ofFun fun d => d.orKeep (d.writeAll h data)
  syncAll _ := return ()
  fileMetadata h := .ofFun fun d => (.ok (d.metadataOf h.number), d)

/-- A disk with these directories and no files. -/
def empty (dirs : List Key) : Disk :=
  { node := fun k => if k ∈ dirs then some .dir else none, data := fun _ => []
    modified := fun _ => 0, next := 0, clock := 0 }

/-- The data of the file at a key. -/
def fileAt (d : Disk) (k : Key) : Option Bytes :=
  match d.nodeAt k with
  | some (.file number) => some (d.data number)
  | _ => none

end Disk

end HbbCommon.Files
