import AbyssalWarden.Embedding
import AbyssalWarden.QuarantineOpen
import AbyssalWarden.Sddl

/-! What the Windows quarantine store runs on: paths, handles that may be used only for what they were opened for,
and files that other programs hold. -/
namespace AbyssalWarden

/-! ### Paths -/

inductive PathComponent where
  | prefix_ (text : Bytes)
  | rootDir
  | curDir
  | parentDir
  | normal (name : Bytes)
  deriving DecidableEq

/-- Paths as Windows takes them apart, in the encoding that Rust keeps them in (UTF-8, with unpaired surrogates). -/
structure WindowsPaths where
  isAbsolute : NativePath → Bool
  components : NativePath → List PathComponent
  parent : NativePath → Option NativePath
  join : NativePath → Bytes → NativePath
  toStringLossy : NativePath → String
  /-- UTF-16LE code units. -/
  encodeWide : NativePath → Bytes
  fromWide : Bytes → Option NativePath
  fromWide_encodeWide : ∀ path, fromWide (encodeWide path) = some path

/-- `str::trim_end_matches('\\')` -/
def trimBackslashes (s : List Char) : List Char := (s.reverse.dropWhile (· = '\\')).reverse

def stripPrefix (lead s : List Char) : Option (List Char) :=
  if lead.isPrefixOf s then some (s.drop lead.length) else none

/-- Case-insensitive, component-wise "is `path` under one of `roots`" for Windows paths. -/
def windowsPathUnder (path : List Char) (roots : List (List Char)) : Bool :=
  let norm (s : List Char) :=
    let s := s.map fun c => if c = '/' then '\\' else c
    trimBackslashes (((stripPrefix "\\\\?\\".toList s).getD s).map Char.toLower)
  ((roots.map norm).filter (· ≠ [])).any fun r =>
    norm path = r ∨ (r ++ ['\\']).isPrefixOf (norm path)

namespace WindowsPaths

variable (paths : WindowsPaths)

/-- Lower-case path without the `\\?\` prefix, `\` separators, no trailing separator: for comparing paths the way
Windows resolves them. -/
def norm (p : NativePath) : List Char :=
  let s := (paths.toStringLossy p).toList.map fun c => if c = '/' then '\\' else c
  let s := match stripPrefix "\\\\?\\UNC\\".toList s with
    | some unc => "\\\\".toList ++ unc
    | none => (stripPrefix "\\\\?\\".toList s).getD s
  trimBackslashes (s.map Char.toLower)

def observedPath (path : NativePath) : ObservedPath :=
  match fromUtf8 path with
  | some s => ⟨s, none⟩
  | none => ⟨paths.toStringLossy path, some (String.ofList (hexEncode (paths.encodeWide path)))⟩

/-- Reconstruct the exact native path. -/
def nativePath (p : ObservedPath) : Option NativePath :=
  match p.rawHex with
  | none => some (utf8Bytes p.text)
  | some h => (unhex h.toList).bind fun bytes =>
    if bytes.length % 2 ≠ 0 then none else paths.fromWide bytes

/-- Split an absolute path into parent and final component, rejecting `..` and paths without a final normal
component. -/
def splitChecked (path : NativePath) : Except RemediationError (NativePath × Bytes) := do
  refuseIf (paths.isAbsolute path = false ∨ .parentDir ∈ paths.components path) (.invalidPath path)
  match (paths.components path).getLast?, paths.parent path with
  | some (.normal name), some parent => .ok (parent, name)
  | _, _ => .error (.invalidPath path)

end WindowsPaths

/-! ### Files -/

/-- What a handle was opened for. -/
inductive Access where
  | read
  | write
  | delete
  deriving DecidableEq

def accessDenied : Errno := .other "Access is denied. (os error 5)"

def sharingViolation : Errno :=
  .other "The process cannot access the file because it is being used by another process. (os error 32)"

def lockViolation : Errno := .other
  ("The process cannot access the file because another process has locked a portion of the file. " ++ "(os error 33)")

def isInUse (e : Errno) : Bool := e = sharingViolation || e = lockViolation

/-- The files, and why some of them cannot be opened: another program holds them without sharing, or access is
denied. Device and inode are the volume serial number and the file index. -/
structure Volume where
  disk : Disk
  refusal : FileKey → Option Errno

inductive VolumeCall where
  | store (c : StoreCall)
  /-- Opened to read and delete, while others may only read. -/
  | openPinned (key : FileKey)
  | readPinned (key : FileKey)
  /-- Opened to read, for volume serial number and file index. -/
  | information (key : FileKey)
  | deleteByHandle (key : FileKey) (access : List Access)

abbrev VolumeAnswer : VolumeCall → Type
  | .store c => StoreAnswer c
  | .openPinned _ => FileNode
  | .readPinned _ => Bytes
  | .information _ => ℕ × ℕ
  | .deleteByHandle _ _ => Unit

namespace Volume

/-- `CreateFile`, which opens a reparse point itself -/
def openFile (v : Volume) (key : FileKey) : Except Errno FileNode :=
  match v.disk.outside key with
  | none => .error .noent
  | some node => match v.refusal key with
    | none => .ok node
    | some e => .error e

/-- The handle must have DELETE access. -/
def deleteByHandle (v : Volume) (key : FileKey) (access : List Access) : Except Errno Unit × Volume :=
  if .delete ∈ access then ((v.disk.removeFile key).1, { v with disk := (v.disk.removeFile key).2 })
  else (.error accessDenied, v)

def apply (v : Volume) : (c : VolumeCall) → Except Errno (VolumeAnswer c) × Volume
  | .store c => ((v.disk.apply c).1, { v with disk := (v.disk.apply c).2 })
  | .openPinned key => (v.openFile key, v)
  | .readPinned key => ((v.disk.outside key).elim (.error .noent) fun node => .ok node.content, v)
  | .information key => ((v.openFile key).map fun node => (node.dev, node.ino), v)
  | .deleteByHandle key access => v.deleteByHandle key access

def torn (v : Volume) (n : ℕ) : VolumeCall → Volume
  | .store c => { v with disk := v.disk.torn n c }
  | c => if n = 0 then v else (v.apply c).2

def failed (v : Volume) (n : ℕ) : VolumeCall → Volume
  | .store c => { v with disk := v.disk.failed n c }
  | _ => v

end Volume

/-- The calls the store makes of Windows. -/
abbrev windowsSystem : System Volume Errno where
  Call := VolumeCall
  Answer := VolumeAnswer
  apply c v := v.apply c
  torn c n v := v.torn n c
  failed c n v := v.failed n c

/-- The files but for how they can be opened. -/
def volumePart : Part storeSystem windowsSystem where
  call := .store
  answer _ := id
  view := Volume.disk
  apply_answer c v := by
    change (v.disk.apply c).1.map id = (v.disk.apply c).1
    cases (v.disk.apply c).1 <;> rfl
  apply_view _ _ := rfl
  torn_view _ _ _ := rfl
  failed_view _ _ _ := rfl

/-- The errors of the Linux store, and a file that is in use. -/
inductive WindowsError where
  | common (e : RemediationError)
  | inUse (path : NativePath)

def WindowsError.text : WindowsError → String
  | common e => e.text
  | inUse path => path.display ++
    " is in use by another program (opened without sharing, or a running program); nothing was changed"

abbrev WindowsProg := Prog windowsSystem WindowsError

namespace VolumeCall

/-- The call, its error worded by `onError`. -/
abbrev orErr (c : VolumeCall) (onError : Errno → WindowsError) : WindowsProg (VolumeAnswer c) :=
  Prog.request (S := windowsSystem) c onError

abbrev result (c : VolumeCall) : WindowsProg (Except Errno (VolumeAnswer c)) := Prog.ask (S := windowsSystem) c

abbrev ignored (c : VolumeCall) : WindowsProg Unit := Prog.ignore (S := windowsSystem) c

end VolumeCall

end AbyssalWarden
