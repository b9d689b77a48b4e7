import AbyssalWarden.Finding
import AbyssalWarden.JsonStrings
import AbyssalWarden.StableSort

/-! What a persistence check sees of a directory: how it is listed, which of its files are returned and read, and what
is reported of the rest. -/
namespace AbyssalWarden.SystemCheck

/-- Largest configuration file read; longer files are read up to this size. -/
def maxRead : ℕ := 2^20

/-- Most directory entries listed per directory. -/
def maxDirEntries : ℕ := 20000

inductive Kind where
  | file
  | dir
  | symlink
  | other
  deriving DecidableEq

structure Meta where
  uid : ℕ
  gid : ℕ
  mode : ℕ
  kind : Kind
  dev : ℕ
  ino : ℕ
  deriving DecidableEq

/-- An I/O error; what is called missing are `ENOENT`, `ENOTDIR` and `ELOOP`. -/
inductive IoError where
  | notFound
  | notDir
  | loop
  | permissionDenied (message : String)
  | other (message : String)
  deriving DecidableEq

def IoError.isMissing : IoError → Bool
  | notFound => true
  | notDir => true
  | loop => true
  | permissionDenied _ => false
  | other _ => false

def IoError.message : IoError → String
  | notFound => "No such file or directory (os error 2)"
  | notDir => "Not a directory (os error 20)"
  | loop => "Too many levels of symbolic links (os error 40)"
  | permissionDenied message => message
  | other message => message

def IoError.issueKind : IoError → IssueKind
  | permissionDenied _ => .permissionDenied
  | _ => .io

/-! ### The root -/

/-- An entry as the kernel lists it. -/
structure RawEntry where
  name : Bytes
  kind : Kind
  deriving DecidableEq

/-- What one `read` call does; after the last one the file has ended. -/
inductive ReadStep where
  | data (byte : UInt8) (rest : Bytes)
  | interrupted
  | failed (e : IoError)

/-- What a path leads to: its metadata, and what opening and reading it do. -/
structure Node where
  info : Meta
  reads : Except IoError (List ReadStep)

/-- The inspected root: how a directory is listed, and what a path leads to when links are followed inside. -/
structure Root where
  listing : NativePath → Except IoError (List RawEntry)
  resolve : NativePath → Except IoError Node

structure Text where
  text : String
  info : Meta
  truncated : Bool

structure Entry where
  name : String
  kind : Kind

/-- `to_string_lossy` -/
def toStringLossy (bytes : Bytes) : String := (fromUtf8 bytes).getD (fromUtf8Lossy bytes)

namespace Root

variable (root : Root)

/-- Metadata of the file a path names. -/
def stat (logical : NativePath) : Except IoError Meta := (root.resolve logical).map (·.info)

/-- The read loop, with the space that is left in the buffer. -/
def fill : ℕ → List ReadStep → Except IoError Bytes
  | _, [] => .ok []
  | 0, _ => .ok []
  | space, .interrupted :: steps => fill space steps
  | _, .failed e :: _ => .error e
  | space, .data byte rest :: steps => do
    let read := (byte :: rest).take space
    .ok (read ++ (← fill (space - read.length) steps))

/-- Reads a regular file as lossy UTF-8, at most `maxRead` bytes. -/
def readText (logical : NativePath) : Except IoError Text := do
  let node ← root.resolve logical
  let steps ← node.reads
  if node.info.kind ≠ .file then .error (.other "not a regular file")
  else
    let buf ← fill (maxRead + 1) steps
    .ok ⟨toStringLossy (buf.take maxRead), node.info, decide (buf.length > maxRead)⟩

/-- The loop over the entries, up to the cap. -/
def listEntries : List RawEntry → List Entry → List Entry
  | [], out => out
  | e :: entries, out =>
    let name := toStringLossy e.name
    if name = "." ∨ name = ".." then listEntries entries out
    else
      let out := out ++ [⟨name, e.kind⟩]
      if out.length ≥ maxDirEntries then out else listEntries entries out

/-- Directory entries (without `.` and `..`), sorted by name. -/
def readDir (logical : NativePath) : Except IoError (List Entry) := do
  let entries ← root.listing logical
  .ok (stableSort (·.name) (listEntries entries []))

end Root

/-! ### Checks -/

/-- Progress of one check. -/
structure Run where
  examined : ℕ
  isPartial : Bool
  notes : List String

/-- `Partial` and `Completed`, the two that a check that ran ends with. -/
inductive CheckStatus where
  | completed
  | partially
  deriving DecidableEq

structure CheckResult where
  id : String
  title : String
  status : CheckStatus
  examined : ℕ
  detail : Option String

def Run.finish (run : Run) (id title : String) (cancelled : Bool) : CheckResult :=
  let notes := if cancelled then run.notes ++ ["cancelled"] else run.notes
  { id := id
    title := title
    status := if run.isPartial || cancelled then .partially else .completed
    examined := run.examined
    detail := if notes = [] then none else some ("; ".intercalate notes) }

/-- A check at work: its progress, and the issues of all checks. -/
structure Checking where
  run : Run
  issues : List ScanIssue

/-- Records a read error: missing files are normal and ignored; other errors become issues. -/
def Checking.ioError (s : Checking) (path : NativePath) (e : IoError) : Checking :=
  if e.isMissing then s
  else
    { run := { s.run with isPartial := true }
      issues := s.issues ++ [⟨some (.fromPath path), e.issueKind, some "system-checks", e.message, none⟩] }

/-- The loop of `files_in`. -/
def statEntries (root : Root) (dir : NativePath) : List Entry → Checking → List (NativePath × Meta) × Checking
  | [], s => ([], s)
  | e :: entries, s =>
    if e.kind = .dir then statEntries root dir entries s
    else
      let path := dir.join (utf8Bytes e.name)
      match root.stat path with
      | .error err => statEntries root dir entries (s.ioError path err)
      | .ok m =>
        let (out, s) := statEntries root dir entries s
        (if m.kind = .file then (path, m) :: out else out, s)

/-- Regular files directly in a directory, with their metadata. -/
def filesIn (root : Root) (dir : NativePath) (s : Checking) : List (NativePath × Meta) × Checking :=
  match root.readDir dir with
  | .error e => ([], s.ioError dir e)
  | .ok entries => statEntries root dir entries s

/-- Reads a file for a check. -/
def read (root : Root) (path : NativePath) (s : Checking) : Option (String × Meta) × Checking :=
  match root.readText path with
  | .error e => (none, s.ioError path e)
  | .ok t =>
    let run := { s.run with examined := s.run.examined + 1 }
    let note := path.display ++ " is larger than 1 MiB; only the start was read"
    (some (t.text, t.info),
      { s with run := if t.truncated then { run with isPartial := true, notes := run.notes ++ [note] } else run })

/-- The files that a check reads, one after another, with what it gets of each. -/
def readAll (root : Root) : List NativePath → Checking → List (NativePath × Option (String × Meta)) × Checking
  | [], s => ([], s)
  | path :: paths, s =>
    let (text, s) := read root path s
    let (texts, s) := readAll root paths s
    ((path, text) :: texts, s)

/-! ### What is in a directory -/

/-- The entries that are not the directory itself or its parent. -/
def visible (entries : List RawEntry) : List RawEntry :=
  entries.filter fun e => ¬ (toStringLossy e.name = "." ∨ toStringLossy e.name = "..")

/-- The entries that may be files and whose names are converted to `name`. -/
def seenAs (name : String) (entries : List RawEntry) : List RawEntry :=
  entries.filter fun e => e.kind ≠ .dir ∧ toStringLossy e.name = name

/-- An entry leads to a regular file. -/
def IsFile (root : Root) (dir : NativePath) (e : RawEntry) (node : Node) : Prop :=
  root.resolve (dir.join e.name) = .ok node ∧ node.info.kind = .file

/-- What the kernel lists of a directory: what it says of entries is true, and every file is listed. -/
structure Listed (root : Root) (dir : NativePath) (entries : List RawEntry) : Prop where
  listing : root.listing dir = .ok entries
  dirs : ∀ e ∈ entries, e.kind = .dir → ∀ node, ¬ IsFile root dir e node
  dots : ∀ e ∈ entries, e ∉ visible entries → e.kind = .dir
  found : ∀ e ∈ entries, ∀ node, IsFile root dir ⟨utf8Bytes (toStringLossy e.name), e.kind⟩ node →
    ∃ e' ∈ entries, e'.name = utf8Bytes (toStringLossy e.name)

/-- The root, when the kernel lists the directory in another order. -/
def Root.relisted (root : Root) (dir : NativePath) (entries : List RawEntry) : Root :=
  { root with listing := fun d => if d = dir then .ok entries else root.listing d }

/-- All the bytes of a file. -/
def contentOf : List ReadStep → Bytes
  | [] => []
  | .data byte rest :: steps => byte :: rest ++ contentOf steps
  | .interrupted :: steps => contentOf steps
  | .failed _ :: _ => []

/-- The files of the directory that can be opened were returned, those that were read were read in full, and in any
other order of the listing the same would have been returned. -/
structure InspectedAll (root : Root) (dir : NativePath) (entries : List RawEntry) (s : Checking)
    (texts : List (NativePath × Option (String × Meta))) : Prop where
  returned : ∀ e ∈ entries, ∀ node steps, IsFile root dir e node → node.reads = .ok steps →
    (dir.join e.name, node.info) ∈ (filesIn root dir s).1
  inFull : ∀ t ∈ texts, ∃ node steps, root.resolve t.1 = .ok node ∧ node.reads = .ok steps ∧
    t.2 = some (toStringLossy (contentOf steps), node.info)
  ordered : ∀ entries' : List RawEntry, entries'.Perm entries → ∀ x,
    x ∈ (filesIn (root.relisted dir entries') dir s).1 ↔ x ∈ (filesIn root dir s).1

/-- Opening or reading a file fails as if it were missing. -/
def Node.FailsAsMissing (node : Node) : Prop :=
  (∃ e, node.reads = .error e ∧ e.isMissing = true) ∨
    ∃ steps e, node.reads = .ok steps ∧ ReadStep.failed e ∈ steps ∧ e.isMissing = true

/-- However the directory is listed, one entry that is seen under the name of a file is within the cap. -/
def Within (root : Root) (dir : NativePath) (entries : List RawEntry) : Prop :=
  ∀ e ∈ entries, ∀ node name, IsFile root dir e node → fromUtf8 e.name = some name →
    (visible entries).length < maxDirEntries + (seenAs name (visible entries)).length

/-- Names of files that can be opened are text; the cap keeps every file in whatever order; and no file that is read
fails as if it were missing. -/
structure Seeable (root : Root) (dir : NativePath) (entries : List RawEntry) (paths : List NativePath) : Prop where
  text : ∀ e ∈ entries, ∀ node steps, IsFile root dir e node → node.reads = .ok steps → (fromUtf8 e.name).isSome
  within : Within root dir entries
  present : ∀ path ∈ paths, ∀ node, root.resolve path = .ok node → ¬ node.FailsAsMissing

end AbyssalWarden.SystemCheck
