import HbbCommon.Base.Effect
import HbbCommon.Files.Path

/-!
# File systems

What the file transfer calls of the operating system, over a type `σ` of states and a type
`φ` of open files. Every call may fail and may change the state, and nothing is said of how:
another process may work on the same files.
-/

namespace HbbCommon.Files

open HbbCommon.Base

abbrev Bytes := List UInt8

/-- The kinds of `io::Error` that are told apart. -/
inductive IoError
  | notFound
  | other
  deriving DecidableEq, Repr

/-- A modification time, in seconds since the epoch, and a length. -/
structure Metadata where
  modified : Nat
  len : Nat
  deriving DecidableEq, Repr

structure FileSys (σ φ : Type) where
  /-- whether `symlink_metadata` finds a symbolic link -/
  symlinkMetadata : Path → Effect σ IoError Bool
  pathExists : Path → σ → Bool × σ
  isDir : Path → σ → Bool × σ
  isFile : Path → σ → Bool × σ
  metadata : Path → Effect σ IoError Metadata
  readToString : Path → Effect σ IoError String
  mkdir : Path → Effect σ IoError Unit
  removeFile : Path → Effect σ IoError Unit
  rename : Path → Path → Effect σ IoError Unit
  setFileMtime : Path → Nat → Effect σ IoError Unit
  /-- `fs::write` -/
  writeFile : Path → Bytes → Effect σ IoError Unit
  /-- `File::open` -/
  openFile : Path → Effect σ IoError φ
  /-- `File::create` -/
  create : Path → Effect σ IoError φ
  /-- `OpenOptions::new().create(true).write(true).open` -/
  openWrite : Path → Effect σ IoError φ
  seek : φ → Nat → Effect σ IoError φ
  read : φ → (n : Nat) → Effect σ IoError ({ data : Bytes // data.length ≤ n } × φ)
  writeAll : φ → Bytes → Effect σ IoError φ
  syncAll : φ → Effect σ IoError Unit
  fileMetadata : φ → Effect σ IoError Metadata

namespace FileSys

variable {σ φ : Type}

/-- `exists` of one path and then of another. -/
def bothExist (fs : FileSys σ φ) (first second : Path) (s : σ) : Bool × σ :=
  match fs.pathExists first s with
  | (true, s) => fs.pathExists second s
  | (false, s) => (false, s)

/-- `fs::create_dir_all`: the path, after its parents where one is missing. -/
def createDirAll (fs : FileSys σ φ) (path : Path) (s : σ) : Except IoError Unit × σ :=
  if path.components = [] then (.ok (), s)
  else
    match (fs.mkdir path).exec s with
    | (.ok (), s) => (.ok (), s)
    | (.error .notFound, s) =>
        match _h : path.parent with
        | none => (.error .other, s)
        | some parent =>
            match fs.createDirAll parent s with
            | (.error error, s) => (.error error, s)
            | (.ok (), s) =>
                match (fs.mkdir path).exec s with
                | (.ok (), s) => (.ok (), s)
                | (.error error, s) =>
                    match fs.isDir path s with
                    | (true, s) => (.ok (), s)
                    | (false, s) => (.error error, s)
    | (.error error, s) =>
        match fs.isDir path s with
        | (true, s) => (.ok (), s)
        | (false, s) => (.error error, s)
termination_by path.components.length
decreasing_by
  obtain ⟨c, hc⟩ := Path.components_parent _h
  rw [hc, List.length_append]
  exact Nat.lt_succ_self _

end FileSys

end HbbCommon.Files
