import HbbCommon.Files.LinkTree

/-!
# Listing and clearing folders

`read_dir` lists a directory, with a type for each entry that says whether a link leads to a
directory. Two recursions over the real directories below a folder list its files and its
empty directories for a copy; a third removes the links and the directories that become
empty. A recursion has no value when its fuel is less than the tree is deep.
-/

namespace HbbCommon.Files.Listing

open HbbCommon.Base

/-- The types of `FileType` that an entry gets on Unix. -/
inductive FileType
  | dir
  | dirLink
  | file
  | fileLink
  deriving DecidableEq, Repr

structure FileEntry where
  entryType : FileType
  name : String
  isHidden : Bool
  size : Nat
  modifiedTime : Nat
  deriving DecidableEq, Repr

structure FileDirectory where
  path : String
  entries : List FileEntry
  deriving DecidableEq, Repr

inductive ListError
  | io
  /-- `Not exists` -/
  | notExists
  deriving DecidableEq, Repr

/-- `get_string` -/
def getString (p : Path) : String := (fromUtf8 p).getD ""

/-- `get_file_name` -/
def getFileName (p : Path) : String := (p.fileName.bind fromUtf8).getD ""

/-- The type of an entry, from `is_dir`, which follows links, and from its own metadata. -/
def entryTypeOf (isDir isSymlink : Bool) : FileType :=
  if isDir then if isSymlink then .dirLink else .dir
  else if isSymlink then .fileLink
  else .file

/-- A turn of the loop of `read_dir`, for the entry with the path `p`. -/
def readEntry (t : LinkTree) (includeHidden : Bool) (p : Path) : Option FileEntry :=
  let name := getFileName p
  if name = "" then none
  else
    match t.symlinkMetadata p with
    | none => none
    | some inode =>
        let isHidden := name.toList.head? = some '.'
        if isHidden ∧ ¬ includeHidden then none
        else
          let entryType := entryTypeOf (t.isDir p) inode.isLink
          let size := if entryType = .file then inode.metadata.len else 0
          some { entryType, name, isHidden, size, modifiedTime := inode.metadata.modified }

def readDir (t : LinkTree) (path : Path) (includeHidden : Bool) : Except ListError FileDirectory :=
  match t.readDir path with
  | none => .error .io
  | some names =>
      .ok
        { path := getString path
          entries := names.filterMap (fun n => readEntry t includeHidden (path.push n)) }

/-- What the entries of a directory add to a list, one behind the other; an entry whose
recursion fails adds nothing. -/
def collect {α : Type} (piece : FileEntry → Option (Except ListError (List α)))
    (entries : List FileEntry) : Option (List α) :=
  (entries.mapM (fun entry => (piece entry).map (fun r => (r.toOption).getD []))).map List.flatten

/-- A turn of the loop of `read_dir_recursive`, with the recursion as an argument. -/
def entryFiles (recurse : Path → Path → Option (Except ListError (List FileEntry)))
    (path pre : Path) (entry : FileEntry) : Option (Except ListError (List FileEntry)) :=
  let name := utf8Bytes entry.name
  match entry.entryType with
  | .file => some (.ok [{ entry with name := getString (pre.push name) }])
  | .dir => recurse (path.push name) (pre.push name)
  | _ => some (.ok [])

def readDirRecursive (t : LinkTree) (includeHidden : Bool) :
    (fuel : Nat) → (path pre : Path) → Option (Except ListError (List FileEntry))
  | 0, _, _ => none
  | fuel + 1, path, pre =>
      if t.isDir path then
        match readDir t path includeHidden with
        | .error error => some (.error error)
        | .ok fd =>
            (collect (entryFiles (readDirRecursive t includeHidden fuel) path pre) fd.entries).map
              .ok
      else if t.isFile path then
        let (size, modifiedTime) :=
          match t.metadata path with
          | some m => (m.len, m.modified)
          | none => (0, 0)
        some (.ok [{ entryType := .file, name := "", isHidden := false, size, modifiedTime }])
      else some (.error .notExists)

def getRecursiveFiles (t : LinkTree) (fuel : Nat) (path : String) (includeHidden : Bool) :
    Option (Except ListError (List FileEntry)) :=
  readDirRecursive t includeHidden fuel (utf8Bytes path) []

/-- A turn of the loop of `read_empty_dirs_recursive`. -/
def entryEmptyDirs (recurse : Path → Path → Option (Except ListError (List FileDirectory)))
    (path pre : Path) (entry : FileEntry) : Option (Except ListError (List FileDirectory)) :=
  let name := utf8Bytes entry.name
  match entry.entryType with
  | .dir => recurse (path.push name) (pre.push name)
  | _ => some (.ok [])

def readEmptyDirsRecursive (t : LinkTree) (includeHidden : Bool) :
    (fuel : Nat) → (path pre : Path) → Option (Except ListError (List FileDirectory))
  | 0, _, _ => none
  | fuel + 1, path, pre =>
      if t.isDir path then
        match readDir t path includeHidden with
        | .error error => some (.error error)
        | .ok fd =>
            if fd.entries = [] then some (.ok [fd])
            else
              (collect (entryEmptyDirs (readEmptyDirsRecursive t includeHidden fuel) path pre)
                fd.entries).map .ok
      else if t.isFile path then some (.ok [])
      else some (.error .notExists)

def getEmptyDirsRecursive (t : LinkTree) (fuel : Nat) (path : String) (includeHidden : Bool) :
    Option (Except ListError (List FileDirectory)) :=
  readEmptyDirsRecursive t includeHidden fuel (utf8Bytes path) []

/-- A turn of the loop of `remove_all_empty_dir`. -/
def clearEntry (recurse : Path → LinkTree → Option (Except ListError Unit × LinkTree))
    (path : Path) (t : LinkTree) (entry : FileEntry) : Option LinkTree :=
  let p := path.push (utf8Bytes entry.name)
  match entry.entryType with
  | .dir => (recurse p t).map Prod.snd
  | .dirLink | .fileLink => some ((t.removeFile p).getD t)
  | .file => some t

/-- `remove_all_empty_dir`; what cannot be removed is left. -/
def removeAllEmptyDir : (fuel : Nat) → (path : Path) → LinkTree →
    Option (Except ListError Unit × LinkTree)
  | 0, _, _ => none
  | fuel + 1, path, t =>
      match readDir t path true with
      | .error error => some (.error error, t)
      | .ok fd => do
          let t ← fd.entries.foldlM (clearEntry (removeAllEmptyDir fuel) path) t
          some (.ok (), (t.removeDir path).getD t)

end HbbCommon.Files.Listing
