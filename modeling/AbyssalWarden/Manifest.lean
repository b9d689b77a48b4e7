import AbyssalWarden.Checked
import AbyssalWarden.Clock
import AbyssalWarden.Text

/-! The signed description of a content bundle and the rules it is checked against. -/
namespace AbyssalWarden

structure Sha256Digest where
  bytes : Bytes
  length_eq : bytes.length = 32
  deriving DecidableEq

inductive ContentKind where
  | hashDatabase
  | yaraRules
  | notice
  deriving DecidableEq, Repr

structure ManifestFile where
  path : String
  kind : ContentKind
  size : ℕ
  sha256 : Sha256Digest
  deriving DecidableEq

structure Manifest where
  format : String
  formatVersion : ℕ
  name : String
  sequence : ℕ
  issued : OffsetDateTime
  expires : OffsetDateTime
  files : List ManifestFile
  revokeKeys : List String
  deriving DecidableEq

def manifestFormat : String := "abyssal-warden.content-manifest"
def maxRevocations : ℕ := 64
def maxFiles : ℕ := 10000
def maxContentFileBytes : ℕ := 256 * 1024 * 1024
def maxNameLen : ℕ := 128
def maxPathLen : ℕ := 512

/-- What a manifest is refused for. Names taken from it are shown cut to 80 characters. -/
inductive ManifestProblem where
  | json (reason : String)
  | format
  | formatVersion (found : ℕ)
  | name
  | sequence
  | expires
  | noFiles
  | tooManyFiles
  | tooManyRevocations
  | revokeKey (shown : String)
  | path (shown : String)
  | duplicatePath (shown : String)
  | fileTooLarge (path : String)
  deriving DecidableEq

/-- Bundle names: `[A-Za-z0-9._-]`, 1-128 characters. -/
def validName (name : String) : Bool :=
  name ≠ "" && name.utf8ByteSize ≤ maxNameLen &&
    name.toList.all fun c => c.isAlphanum || c = '.' || c = '_' || c = '-'

def isAsciiHexdigit (c : Char) : Bool :=
  c.isDigit || ('a' ≤ c && c ≤ 'f') || ('A' ≤ c && c ≤ 'F')

/-- Key IDs as minisign prints them: 16 hexadecimal digits. -/
def validKeyId (id : String) : Bool := id.utf8ByteSize = 16 && id.toList.all isAsciiHexdigit

/-- `path.split('/')` -/
def pathComponents (path : String) : List (List Char) := path.toList.splitOn '/'

/-- A portable relative path: `/`-separated normal components only. -/
def validRelativePath (path : String) : Bool :=
  path ≠ "" && path.utf8ByteSize ≤ maxPathLen && !(path.toList.contains '\\') &&
    !(path.toList.contains ':') && !(hasUnsafeChars path false) &&
    (pathComponents path).all fun c => c ≠ [] && c ≠ ['.'] && c ≠ ['.', '.']

def truncate (s : String) : String := String.ofList (s.toList.take 80)

/-- The rules of one listed file, `seen` holding the paths of those before it. -/
def checkFile (seen : List String) (f : ManifestFile) : Except ManifestProblem (List String) := do
  refuseIf (validRelativePath f.path = false) (.path (truncate f.path))
  refuseIf (f.path ∈ seen) (.duplicatePath (truncate f.path))
  refuseIf (f.size > maxContentFileBytes) (.fileTooLarge f.path)
  .ok (seen ++ [f.path])

/-- Check every structural rule. -/
def Manifest.validate (m : Manifest) : Except ManifestProblem Unit := do
  refuseIf (m.format ≠ manifestFormat) .format
  refuseIf (m.formatVersion ≠ 1) (.formatVersion m.formatVersion)
  refuseIf (validName m.name = false) .name
  refuseIf (m.sequence = 0) .sequence
  refuseIf (m.expires ≤ m.issued) .expires
  refuseIf (m.files = []) .noFiles
  refuseIf (m.files.length > maxFiles) .tooManyFiles
  refuseIf (m.revokeKeys.length > maxRevocations) .tooManyRevocations
  refuseSome (m.revokeKeys.find? fun k => !validKeyId k) fun k => .revokeKey (truncate k)
  let _ ← checkEach checkFile [] m.files
  .ok ()

/-- The rules of a manifest, as they hold of it. -/
structure Manifest.Valid (m : Manifest) : Prop where
  format_eq : m.format = manifestFormat
  formatVersion_eq : m.formatVersion = 1
  name_valid : validName m.name = true
  sequence_pos : 0 < m.sequence
  issued_lt_expires : m.issued < m.expires
  files_ne : m.files ≠ []
  files_le : m.files.length ≤ maxFiles
  revokeKeys_le : m.revokeKeys.length ≤ maxRevocations
  revokeKeys_valid : ∀ k ∈ m.revokeKeys, validKeyId k = true
  paths_valid : ∀ f ∈ m.files, validRelativePath f.path = true
  paths_nodup : (m.files.map ManifestFile.path).Nodup
  sizes_le : ∀ f ∈ m.files, f.size ≤ maxContentFileBytes

theorem checkFile_eq_ok {seen seen' : List String} {f : ManifestFile} :
    checkFile seen f = .ok seen' ↔
      validRelativePath f.path = true ∧ f.path ∉ seen ∧ f.size ≤ maxContentFileBytes ∧
        seen' = seen ++ [f.path] := by
  simp only [checkFile, except_bind_eq_ok, refuseIf_eq_ok, exists_const, Except.ok.injEq,
    Bool.not_eq_false, not_lt, @eq_comm _ seen']

theorem checkFiles_eq_ok {seen seen' : List String} {files : List ManifestFile}
    (hseen : seen.Nodup) :
    checkEach checkFile seen files = .ok seen' ↔
      seen' = seen ++ files.map ManifestFile.path ∧ seen'.Nodup ∧
        (∀ f ∈ files, validRelativePath f.path = true) ∧
        ∀ f ∈ files, f.size ≤ maxContentFileBytes := by
  induction files generalizing seen with
  | nil =>
    simp only [checkEach, Except.ok.injEq, List.map_nil, List.append_nil, List.not_mem_nil,
      false_imp_iff, implies_true, and_true]
    exact ⟨fun h => ⟨h.symm, h ▸ hseen⟩, fun h => h.1.symm⟩
  | cons f files ih =>
    simp only [checkEach_cons_eq_ok, checkFile_eq_ok, List.forall_mem_cons, List.map_cons]
    constructor
    · rintro ⟨_, ⟨hpath, hnew, hsize, rfl⟩, hrest⟩
      have hnodup : (seen ++ [f.path]).Nodup := by
        rw [List.nodup_append]
        refine ⟨hseen, List.nodup_singleton _, ?_⟩
        intro a ha b hb hab
        exact hnew (by rwa [hab, List.mem_singleton.mp hb] at ha)
      obtain ⟨heq, hnd, hpaths, hsizes⟩ := (ih hnodup).mp hrest
      exact ⟨by simpa using heq, hnd, ⟨hpath, hpaths⟩, hsize, hsizes⟩
    · rintro ⟨heq, hnd, ⟨hpath, hpaths⟩, hsize, hsizes⟩
      have hsplit : seen' = seen ++ [f.path] ++ files.map ManifestFile.path := by simpa using heq
      have hnodup : (seen ++ [f.path]).Nodup := (hsplit ▸ hnd).of_append_left
      refine ⟨_, ⟨hpath, ?_, hsize, rfl⟩, (ih hnodup).mpr ⟨hsplit, hnd, hpaths, hsizes⟩⟩
      -- the paths differ
      intro hmem
      exact (List.nodup_append.mp hnodup).2.2 _ hmem _ (List.mem_singleton_self _) rfl

/-- The checks accept exactly the manifests that keep the rules. -/
theorem Manifest.validate_eq_ok_iff (m : Manifest) : m.validate = .ok () ↔ m.Valid := by
  simp only [Manifest.validate, except_bind_eq_ok, refuseIf_eq_ok, refuseSome_eq_ok,
    checkFiles_eq_ok List.nodup_nil, exists_const, and_true, List.nil_append]
  constructor
  · rintro ⟨h1, h2, h3, h4, h5, h6, h7, h8, h9, _, rfl, hnd, hpaths, hsizes⟩
    refine ⟨by simpa using h1, by simpa using h2, by simpa using h3, Nat.pos_of_ne_zero h4,
      lt_of_not_ge h5, h6, by simpa using h7, by simpa using h8, ?_, hpaths, hnd, hsizes⟩
    simpa using List.find?_eq_none.mp h9
  · intro h
    refine ⟨by simp [h.format_eq], by simp [h.formatVersion_eq], by simp [h.name_valid],
      Nat.pos_iff_ne_zero.mp h.sequence_pos, not_le_of_gt h.issued_lt_expires, h.files_ne,
      by simpa using h.files_le, by simpa using h.revokeKeys_le, ?_, _, rfl, h.paths_nodup,
      h.paths_valid, h.sizes_le⟩
    exact List.find?_eq_none.mpr (by simpa using h.revokeKeys_valid)

end AbyssalWarden
