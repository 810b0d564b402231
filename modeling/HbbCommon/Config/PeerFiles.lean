import HbbCommon.Base.Base64
import HbbCommon.Base.Utf8
import HbbCommon.Config.Stores
import HbbCommon.Files.Extension

/-!
# The files of the peers

A peer is stored in a file that is named after its id, by way of Base64 where the id has a
character that Windows forbids. The peers are listed by the names of their files, and loaded by
the ids that are listed; a file whose peer has no platform is removed. No other process is at
work, and the calls of the file system succeed where nothing stands in the way.
-/

namespace HbbCommon.Config

open HbbCommon.Base
open HbbCommon.Files (Path Component)

/-- `PEERS` -/
def peers : Path := utf8Bytes "peers"

/-- `Config::path`; without a directory it is the empty path. -/
def path (dir : Option Path) (p : Path) : Path :=
  match dir with
  | some dir => dir.push p
  | none => []

/-- `Config::with_extension` -/
def withExtension (p : Path) : Path :=
  match p.extension with
  | some ext => p.withExtension (utf8Bytes (fromUtf8Lossy ext ++ ".toml"))
  | none => p.withExtension (utf8Bytes "toml")

/-- A peer's configuration, with the platform of its `info`. -/
structure PeerRecord where
  secrets : PeerConfig
  platform : String

def PeerRecord.default : PeerRecord where
  secrets := { password := [], options := ∅ }
  platform := ""

structure PeerFile where
  modified : Nat
  record : PeerRecord

/-- The directories that were made, and the files, by the components of their paths. -/
structure PeerFiles where
  dirs : List (List Component)
  files : AList (fun _ : List Component => PeerFile)

/-- What one call of the clock and of the random source gives. -/
structure Draw where
  now : Nat
  nonces : String → Nat

namespace PeerFiles

def empty : PeerFiles := ⟨[], ∅⟩

/-- Paths are compared component by component. -/
theorem lawfulBEq_components : LawfulBEq (List Component) := inferInstance

/-- `store_path`: the directories above the file are made, and it is put in its place. -/
def storePath (p : Path) (file : PeerFile) (s : PeerFiles) : PeerFiles :=
  haveI := lawfulBEq_components
  let k := p.components
  if s.files.keys.any (fun above => above <+: k.dropLast) then s
  else
    let dirs := s.dirs ++ k.dropLast.inits
    -- a directory is not replaced by a file
    if p.fileName = none ∨ k ∈ dirs then { s with dirs }
    else { dirs, files := s.files.insert k file }

/-- `load_path` -/
def loadPath (p : Path) (s : PeerFiles) : PeerRecord :=
  match s.files.lookup p.components with
  | some file => file.record
  | none => .default

/-- `fs::remove_file` -/
def removeFile (p : Path) (s : PeerFiles) : PeerFiles :=
  { s with files := s.files.erase p.components }

end PeerFiles

namespace PeerConfig

/-- The pattern of `path` finds one of these anywhere in the id. -/
def forbiddenPaths (id : String) : Bool := id.toList.any (fun c => c ∈ "<>:/\\|?*".toList)

/-- `base64_` -/
def base64Mark : String := "base64_"

/-- The id in Base64. -/
def digits (id : String) : List Char := Base64.encode (utf8Bytes id)

def idEncoded (id : String) : String :=
  if forbiddenPaths id then base64Mark ++ .ofList (digits id) else id

/-- `PeerConfig::path` -/
def path (dir : Option Path) (id : String) : Path :=
  withExtension (Config.path dir (peers.push (utf8Bytes (idEncoded id))))

section

variable (dir : Option Path) (lib : Sodium) (source : KeySource)

/-- `PeerConfig::store` -/
def store (draw : Draw) (id : String) (record : PeerRecord) (s : PeerFiles) : PeerFiles :=
  s.storePath (path dir id)
    { modified := draw.now
      record := { record with
        secrets := (PeerConfig.stored (lib.ops source) draw.nonces record.secrets).run } }

/-- `PeerConfig::load` -/
def load (draw : Draw) (id : String) (s : PeerFiles) : PeerRecord × PeerFiles :=
  let file := s.loadPath (path dir id)
  let (secrets, storeIt) := (PeerConfig.loaded (lib.ops source) file.secrets).run
  let record := { file with secrets }
  (record, if storeIt then store dir lib source draw id record s else s)

/-! ## Listing -/

/-- `to_str().unwrap_or("")` -/
def text (bytes : List UInt8) : String := (fromUtf8 bytes).getD ""

/-- The id that the name of a file stands for. -/
def decodeName (name : String) : String :=
  if base64Mark.toList <+: name.toList ∧ name.utf8ByteSize ≠ 7 then
    fromUtf8Lossy ((Base64.decode (name.toList.drop 7)).getD [])
  else name

/-- The path of an entry of the directory. -/
def entryPath (peersDir : Path) (k : List Component) : Option Path :=
  match k.getLast? with
  | some (.normal name) => if k.dropLast = peersDir.components then some (peersDir.push name) else none
  | _ => none

/-- What is listed for a file. -/
def listed (idFilters : Option (List String)) (p : Path) (modified : Nat) :
    Option (String × Nat × Path) :=
  if p.extension.map text = some "toml" then
    let id := decodeName ((p.fileStem.map text).getD "")
    if idFilters.all (fun filters => id ∈ filters) then some (id, modified, p) else none
  else none

/-- `PeerConfig::get_vec_id_modified_time_path` -/
def getVecIdModifiedTimePath (idFilters : Option (List String)) (s : PeerFiles) :
    List (String × Nat × Path) :=
  haveI := PeerFiles.lawfulBEq_components
  let peersDir := Config.path dir peers
  if peersDir.components ∈ s.dirs then
    (s.files.entries.filterMap (fun e =>
      (entryPath peersDir e.1).bind (fun p => listed idFilters p e.2.modified))).mergeSort
        (fun a b => b.2.1 ≤ a.2.1)
  else []

def batchLoadingCount : Nat := 100

/-- The peers of these entries, and the files after those without a platform are removed. -/
def loadBatch (draws : String → Draw) :
    List (String × Nat × Path) → PeerFiles → List (String × Nat × PeerRecord) × PeerFiles
  | [], s => ([], s)
  | (id, t, p) :: rest, s =>
      let (c, s) := load dir lib source (draws id) id s
      if c.platform = "" then loadBatch draws rest (s.removeFile p)
      else
        let (peers, s) := loadBatch draws rest s
        ((id, t, c) :: peers, s)

/-- `PeerConfig::batch_peers`, where a peer is loaded with the draw of its id. -/
def batchPeers (draws : String → Draw) (all : List (String × Nat × Path)) (start : Nat)
    (stop : Option Nat) (s : PeerFiles) :
    (List (String × Nat × PeerRecord) × Nat) × PeerFiles :=
  if all.length ≤ start then (([], 0), s)
  else
    let stop := min (stop.getD (start + batchLoadingCount)) all.length
    if stop ≤ start then (([], start), s)
    else
      let (peers, s) := loadBatch dir lib source draws ((all.take stop).drop start) s
      ((peers, stop), s)

end

end PeerConfig

end HbbCommon.Config
