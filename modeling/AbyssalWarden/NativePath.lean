import AbyssalWarden.Text

/-! Paths as Linux has them, strings of bytes, and how they are recorded. -/
namespace AbyssalWarden

abbrev NativePath := Bytes

/-- A path as it is recorded: `text` is exact unless `rawHex` holds the native bytes. -/
structure ObservedPath where
  text : String
  rawHex : Option String
  deriving DecidableEq

namespace ObservedPath

def fromPath (path : NativePath) : ObservedPath :=
  match fromUtf8 path with
  | some s => ⟨s, none⟩
  | none => ⟨fromUtf8Lossy path, some (String.ofList (hexEncode path))⟩

end ObservedPath

/-- Reconstruct the exact native path. -/
def nativePath (p : ObservedPath) : Option NativePath :=
  match p.rawHex with
  | none => some (utf8Bytes p.text)
  | some h => unhex h.toList

theorem nativePath_fromPath (path : NativePath) : nativePath (ObservedPath.fromPath path) = some path := by
  unfold ObservedPath.fromPath
  cases h : fromUtf8 path with
  | none => simp [nativePath, unhex_hexEncode]
  | some s => simp [nativePath, utf8Bytes_of_fromUtf8 h]

namespace NativePath

def slash : UInt8 := 0x2F
def dot : UInt8 := 0x2E

def ofString (s : String) : NativePath := utf8Bytes s

/-- `Path::display` -/
def display (path : NativePath) : String := fromUtf8Lossy path

def isAbsolute (path : NativePath) : Bool := path.head? = some slash

/-- `Path::components` of an absolute path, its root left out. -/
def components (path : NativePath) : List Bytes :=
  (path.splitOn slash).filter fun c => c ≠ [] ∧ c ≠ [dot]

/-- `Path::starts_with` -/
def startsWith (path other : NativePath) : Bool :=
  isAbsolute path = isAbsolute other && (components other).isPrefixOf (components path)

/-- The end of a reversed path without separators and `.` components. -/
def trimEnd : NativePath → NativePath
  | [] => []
  | 0x2F :: rest => trimEnd rest
  | 0x2E :: 0x2F :: rest => trimEnd (0x2F :: rest)
  | path => path

/-- `Path::parent` of an absolute path that has a final component. -/
def parent (path : NativePath) : NativePath :=
  let body := trimEnd ((trimEnd path.reverse).dropWhile (· ≠ slash))
  if body = [] then [slash] else body.reverse

/-- `path.join(name)`, for a relative name -/
def join (path name : NativePath) : NativePath :=
  if path.getLast? = some slash then path ++ name else path ++ [slash] ++ name

/-- System directories whose files are never quarantined unless an operator explicitly overrides it. -/
def protectedPrefixes : List String :=
  ["/bin", "/boot", "/dev", "/etc", "/lib", "/lib32", "/lib64", "/libx32", "/proc", "/sbin", "/sys",
    "/usr", "/var/lib/dpkg", "/var/lib/rpm"]

def isProtected (path : NativePath) : Bool :=
  protectedPrefixes.any fun p => path.startsWith (ofString p)

end NativePath

end AbyssalWarden
