import AbyssalWarden.BundleDetectors
import AbyssalWarden.StableSort

/-! Writing the manifest of a bundle directory: its content files are collected, checked one by one, and listed. -/
namespace AbyssalWarden

open Signatures (DatabaseSerde SignatureDbError)
open Yara (YaraLoadError Compiler)

/-! ### A directory -/

/-- The entries of a directory, in the order in which they are listed. What is neither a file nor a directory is a
link or a special file, with what opening and reading it gives when it is followed. -/
inductive Entries where
  | nil
  | file (name : Bytes) (content : Except IoKind Bytes) (rest : Entries)
  | directory (name : Bytes) (listable : Bool) (below rest : Entries)
  | other (name : Bytes) (content : Except IoKind Bytes) (rest : Entries)
  deriving DecidableEq

inductive Found where
  | file (content : Except IoKind Bytes)
  | directory (below : Entries)
  | other (content : Except IoKind Bytes)

namespace Entries

def names : Entries → List Bytes
  | nil => []
  | file name _ rest => name :: rest.names
  | directory name _ _ rest => name :: rest.names
  | other name _ rest => name :: rest.names

/-- No separator stands in a name, and no two entries of a directory have one name. -/
def Valid : Entries → Prop
  | nil => True
  | file name _ rest => (∀ s, fromUtf8 name = some s → '/' ∉ s.toList) ∧ name ∉ rest.names ∧ rest.Valid
  | directory name _ below rest =>
    (∀ s, fromUtf8 name = some s → '/' ∉ s.toList) ∧ name ∉ rest.names ∧ below.Valid ∧ rest.Valid
  | other name _ rest => (∀ s, fromUtf8 name = some s → '/' ∉ s.toList) ∧ name ∉ rest.names ∧ rest.Valid

def find (name : Bytes) : Entries → Option Found
  | nil => none
  | file n content rest => if n = name then some (.file content) else rest.find name
  | directory n _ below rest => if n = name then some (.directory below) else rest.find name
  | other n content rest => if n = name then some (.other content) else rest.find name

/-- The entry that a path leads to, through directories. -/
def walk : List (List Char) → Entries → Option Found
  | [], entries => some (.directory entries)
  | name :: names, entries =>
    match entries.find (utf8Bytes (String.ofList name)) with
    | some (.directory below) => below.walk names
    | found => if names = [] then found else none

/-- A file in the place of the entry with its name, or after all others. -/
def put (name data : Bytes) : Entries → Entries
  | nil => file name (.ok data) nil
  | file n content rest =>
    if n = name then file name (.ok data) rest else file n content (rest.put name data)
  | directory n listable below rest =>
    if n = name then file name (.ok data) rest else directory n listable below (rest.put name data)
  | other n content rest =>
    if n = name then file name (.ok data) rest else other n content (rest.put name data)

end Entries

/-- `std::fs::read` -/
def readFound : Option Found → Except IoKind Bytes
  | none => .error .notFound
  | some (.file content) => content
  | some (.directory _) => .error (.other "Is a directory (os error 21)")
  | some (.other content) => content

/-- Opening without following a final link, and reading. -/
def openFound : Option Found → Except String Bytes
  | some (.file (.ok data)) => .ok data
  | some (.file (.error .notFound)) => .error "No such file or directory (os error 2)"
  | some (.file (.error (.other reason))) => .error reason
  | some (.directory _) => .error "Is a directory (os error 21)"
  | some (.other _) => .error "Too many levels of symbolic links (os error 40)"
  | none => .error "No such file or directory (os error 2)"

/-- The directory as the loader sees it. Listed paths are checked before they are opened: their components are names. -/
def Entries.bundleDir (entries : Entries) : BundleDir where
  read name := readFound (entries.find (utf8Bytes name))
  files components := (openFound (entries.walk (components.map String.toList))).toOption
  openDir := .ok ()
  openWith path := openFound (entries.walk (pathComponents path))
  openWith_inside := by
    intro path data h
    refine ⟨(pathComponents path).map String.ofList, ?_⟩
    have hcomponents : ((pathComponents path).map String.ofList).map String.toList = pathComponents path := by
      simp
    rw [hcomponents, h]
    rfl

/-- `Path::exists`, which follows links. -/
def existsFound : Option Found → Bool
  | none => false
  | some (.other (.error .notFound)) => false
  | some _ => true

/-! ### The content files -/

inductive PublishError where
  | alreadyExists
  | outOfRange (days : ℕ)
  | notUtf8Name (dir : List String)
  | unlistable (dir : List String)
  | special (dir : List String) (name : String)
  | badPath (path : String)
  | tooManyFiles
  | notFlat (path : String)
  | read (path : String) (e : IoKind)
  | tooLarge (path : String)
  | notice (path : String)
  | database (path : String) (e : SignatureDbError)
  | notUtf8 (path : String)
  | rules (path : String) (e : YaraLoadError)
  | unknown (path : String)
  | manifest (problem : ManifestProblem)
  | json (reason : String)
  | store (reason : String)
  deriving DecidableEq

/-- The manifest's place, and the components of a path joined by `/`. -/
def joinComponents (components : List String) : String :=
  String.ofList (['/'].intercalate (components.map String.toList))

/-- `name.starts_with('.') || name.ends_with(".minisig")` -/
def skipped (name : String) : Bool :=
  ".".toList.isPrefixOf name.toList || ".minisig".toList.isSuffixOf name.toList

/-- A regular file at `rel`. -/
def addFile (rel : String) (out : List String) : Except PublishError (List String) :=
  if rel = manifestFile then .ok out
  else do
    refuseIf (validRelativePath rel = false) (.badPath rel)
    let out := out ++ [rel]
    refuseIf (out.length > maxFiles) .tooManyFiles
    .ok out

/-- What `collect` does with an entry, if its name is text and is not skipped. -/
def visit (dir : List String) (name : Bytes) (out : List String) (found : String → Except PublishError (List String)) :
    Except PublishError (List String) :=
  match fromUtf8 name with
  | none => .error (.notUtf8Name dir)
  | some name => if skipped name then .ok out else found name

/-- Content files below `dir`, as `/`-separated paths relative to the root. Links are not followed; the manifest,
signatures and dotfiles are skipped. -/
def collect (dir : List String) : Entries → List String → Except PublishError (List String)
  | .nil, out => .ok out
  | .file name _ rest, out =>
    visit dir name out (fun name => addFile (joinComponents (dir ++ [name])) out) >>= collect dir rest
  | .directory name listable below rest, out =>
    visit dir name out (fun name =>
      if listable then collect (dir ++ [name]) below out else .error (.unlistable (dir ++ [name]))) >>= collect dir rest
  | .other name _ rest, out => visit dir name out (fun name => .error (.special dir name)) >>= collect dir rest

/-! ### The kind of a file -/

def noticeNames : List String := ["LICENSE", "LICENCE", "NOTICE", "COPYING", "AUTHORS", "README", "SOURCES"]

/-- `rel.rsplit_once('.').map(|(_, e)| e.to_ascii_lowercase())` -/
def extension (rel : String) : Option (List Char) := (rsplitOnce '.' rel.toList).map fun (_, e) => e.map Char.toLower

def isNotice (rel : String) : Bool :=
  let base := ((pathComponents rel).getLast?.getD rel.toList).map Char.toUpper
  noticeNames.any (fun n => n.toList.isPrefixOf base) || extension rel = some "txt".toList ||
    extension rel = some "md".toList

def maxNoticeBytes : ℕ := 2 ^ 20

variable (serde : DatabaseSerde) (c : Compiler) (sha256 : Bytes → Sha256Digest)

/-- Rules are compiled alone. -/
def checkRules (rel : String) (data : Bytes) : Except PublishError Unit :=
  match fromUtf8 data with
  | none => .error (.notUtf8 rel)
  | some text => ((Yara.compile c sha256 [⟨"check", rel, text⟩] none).mapError (.rules rel)).map fun _ => ()

/-- Kind by extension, after checking the content is valid for that kind. -/
def contentKind (rel : String) (data : Bytes) : Except PublishError ContentKind :=
  if isNotice rel then do
    refuseIf (data.length > maxNoticeBytes ∨ fromUtf8 data = none) (.notice rel)
    .ok .notice
  else if extension rel = some "json".toList then do
    let _ ← (Signatures.fromSlice serde data).mapError (.database rel)
    .ok .hashDatabase
  else if extension rel = some "yar".toList ∨ extension rel = some "yara".toList then do
    checkRules c sha256 rel data
    .ok .yaraRules
  else .error (.unknown rel)

/-! ### The manifest -/

structure ManifestArgs where
  name : String
  sequence : ℕ
  expiresIn : ℕ
  force : Bool
  revokeKeys : List String
  flat : Bool

/-- The JSON form of a manifest; what is written is read back. -/
structure ManifestCodec where
  toVecPretty : Manifest → Except String Bytes
  fromSlice : Bytes → Except String Manifest
  read_written : ∀ m json, toVecPretty m = .ok json → fromSlice (json ++ [0x0A]) = .ok m

/-- `replace_nanosecond(0)` -/
def OffsetDateTime.wholeSecond (t : OffsetDateTime) : OffsetDateTime :=
  ⟨t.nanos - t.nanos % 10 ^ 9, by
    have h := t.in_range
    unfold nanosPerDay at *
    omega⟩

def Manifest.new (name : String) (sequence : ℕ) (issued expires : OffsetDateTime) : Manifest where
  format := manifestFormat
  formatVersion := 1
  name := name
  sequence := sequence
  issued := issued
  expires := expires
  files := []
  revokeKeys := []

def isFlatName (path : String) : Bool :=
  path.toList.all fun c => c.isAlphanum || c = '.' || c = '_' || c = '-'

/-- `now + Duration::days(days)`, which panics where no time is left. -/
def expiryAt (now : OffsetDateTime) (days : ℕ) : Except PublishError OffsetDateTime :=
  if days < 2 ^ 63 then
    match now.add (Duration.days days) with
    | some t => .ok t
    | none => .error (.outOfRange days)
  else .error (.outOfRange days)

/-- One turn of the loop over the collected files. -/
def listFile (entries : Entries) (files : List ManifestFile) (rel : String) : Except PublishError (List ManifestFile) := do
  let data ← (readFound (entries.walk (pathComponents rel))).mapError (.read rel)
  refuseIf (data.length > maxContentFileBytes) (.tooLarge rel)
  let kind ← contentKind serde c sha256 rel data
  .ok (files ++ [⟨rel, kind, data.length, sha256 data⟩])

/-- The temporary file takes the manifest's place, which no directory gives up. -/
def persist (entries : Entries) (data : Bytes) : Except PublishError Entries :=
  match entries.find (utf8Bytes manifestFile) with
  | some (.directory _) => .error (.store "Is a directory (os error 21)")
  | _ => .ok (entries.put (utf8Bytes manifestFile) data)

structure Published where
  manifest : Manifest
  entries : Entries
  deriving DecidableEq

/-- `write_manifest`; `disk` is what creating, writing and syncing the temporary file gives. -/
def writeManifest (codec : ManifestCodec) (args : ManifestArgs) (now : OffsetDateTime) (disk : Except String Unit)
    (entries : Entries) : Except PublishError Published := do
  refuseIf (existsFound (entries.find (utf8Bytes manifestFile)) = true ∧ args.force = false) .alreadyExists
  let now := now.wholeSecond
  let expires ← expiryAt now args.expiresIn
  let manifest := Manifest.new args.name args.sequence now expires
  let paths ← collect [] entries []
  let paths := stableSort id paths
  refuseSome (if args.flat then paths.find? fun p => !isFlatName p else none) .notFlat
  let files ← checkEach (listFile serde c sha256 entries) [] paths
  let revokeKeys := args.revokeKeys.map fun k => String.ofList (k.toList.map Char.toUpper)
  let manifest := { manifest with files, revokeKeys }
  manifest.validate.mapError .manifest
  let json ← (codec.toVecPretty manifest).mapError .json
  disk.mapError .store
  let entries ← persist entries (json ++ [0x0A])
  .ok ⟨manifest, entries⟩

end AbyssalWarden
