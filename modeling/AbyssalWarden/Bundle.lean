import AbyssalWarden.Manifest
import AbyssalWarden.TrustedKeys

/-! Verifying and loading a signed bundle: the signatures of the manifest, the manifest, its
expiry, and every listed file. -/
namespace AbyssalWarden

/-- A directory that may hold a bundle, as the system shows it. -/
structure BundleDir where
  /-- Opening and reading `dir.join(name)`. -/
  read : String → Except IoKind Bytes
  /-- The files below the directory, by the components of their paths. -/
  files : List String → Option Bytes
  /-- `cap_std`: opening the directory itself. -/
  openDir : Except String Unit
  /-- `cap_std`: opening a path relative to the directory, the last link not followed, and
  reading it. -/
  openWith : String → Except String Bytes
  openWith_inside : ∀ path data, openWith path = .ok data →
    ∃ components, files components = some data

/-- A directory of regular files. -/
def dirOf (files : List (String × Bytes)) : BundleDir where
  read name :=
    match files.lookup name with
    | some data => .ok data
    | none => .error .notFound
  files components := files.lookup ("/".intercalate components)
  openDir := .ok ()
  openWith path :=
    match files.lookup path with
    | some data => .ok data
    | none => .error "not found"
  openWith_inside := by
    intro path data h
    refine ⟨[path], ?_⟩
    cases hf : files.lookup path with
    | none => simp [hf] at h
    | some found => simpa [hf] using h

section

variable {files : List (String × Bytes)} {name : String} {data : Bytes}

theorem dirOf_read_some (h : files.lookup name = some data) : (dirOf files).read name = .ok data := by
  simp only [dirOf, h]

theorem dirOf_read_none (h : files.lookup name = none) : (dirOf files).read name = .error .notFound := by
  simp only [dirOf, h]

theorem dirOf_openWith_some (h : files.lookup name = some data) : (dirOf files).openWith name = .ok data := by
  simp only [dirOf, h]

theorem dirOf_openWith_none (h : files.lookup name = none) : (dirOf files).openWith name = .error "not found" := by
  simp only [dirOf, h]

end

inductive SignatureProblem where
  | notUtf8 (name : String)
  | another (name : String) (id : KeyId)
  | failed (name : String) (e : TrustError)
  deriving DecidableEq

inductive FileProblem where
  | io (reason : String)
  | size (found expected : ℕ)
  | hash (found expected : Sha256Digest)
  deriving DecidableEq

inductive BundleError where
  | trust (e : TrustError)
  | unsigned (dir signature : String)
  | insufficientSignatures (dir : String) (valid required : ℕ) (problems : List SignatureProblem)
  | invalidManifest (problem : ManifestProblem)
  | expired (name : String) (sequence : ℕ) (expires : OffsetDateTime)
  | file (path : String) (problem : FileProblem)
  deriving DecidableEq

structure BundleFile where
  path : String
  kind : ContentKind
  data : Bytes
  deriving DecidableEq

/-- A bundle whose signature, structure, freshness and file hashes have been verified. Rollback
has not been checked yet. -/
structure VerifiedBundle where
  dir : String
  manifest : Manifest
  manifestSha256 : Sha256Digest
  signers : List KeyId
  expired : Bool
  files : List BundleFile
  deriving DecidableEq

structure LoadOptions where
  allowExpired : Bool
  now : OffsetDateTime

def manifestFile : String := "manifest.json"
def maxManifestBytes : ℕ := 1024 * 1024
def maxSignatureBytes : ℕ := 4096
def maxSignatures : ℕ := 16

/-- `dir.join(name)` -/
def joinPath (dir name : String) : String := dir ++ "/" ++ name

/-- The signature files of a manifest: `.minisig`, then `.minisig.2` to `.minisig.16`. -/
def signatureNames : List String :=
  let first := manifestFile ++ ".minisig"
  first :: (List.range' 2 (maxSignatures - 1)).map fun n => first ++ "." ++ toString n

def readBounded (dir : String) (content : BundleDir) (name : String) (limit : ℕ) :
    Except TrustError Bytes :=
  match content.read name with
  | .error e => .error (.io (joinPath dir name) e)
  | .ok data =>
    let data := data.take (limit + 1)
    if data.length > limit then .error (.tooLarge (joinPath dir name) limit) else .ok data

variable {ms : Minisign}

/-- What the loop over the signature files has found. -/
structure Signatures where
  signers : List KeyId
  problems : List SignatureProblem
  foundAny : Bool

/-- One signature file. -/
def verifySignature (dir : String) (content : BundleDir) (data : Bytes) (keys : TrustedKeys ms)
    (now : OffsetDateTime) (acc : Signatures) (name : String) : Except BundleError Signatures :=
  match readBounded dir content name maxSignatureBytes with
  -- a missing signature is none; any other error ends the loading
  | .error (.io _ .notFound) => .ok acc
  | .error e => .error (.trust e)
  | .ok sig =>
    match fromUtf8 sig with
    | none => .ok { acc with foundAny := true, problems := acc.problems ++ [.notUtf8 name] }
    | some text =>
      match keys.verify data text (joinPath dir manifestFile) now with
      | .ok (id, _) =>
        -- a key counts once, whatever it signed
        if id ∈ acc.signers then
          .ok { acc with foundAny := true, problems := acc.problems ++ [.another name id] }
        else .ok { acc with foundAny := true, signers := acc.signers ++ [id] }
      | .error e => .ok { acc with foundAny := true, problems := acc.problems ++ [.failed name e] }

/-- Verify every signature present and require distinct, currently valid, unrevoked keys.
Signatures that fail do not count and are reported if there are not enough. -/
def verifySignatures (dir : String) (content : BundleDir) (data : Bytes) (keys : TrustedKeys ms)
    (now : OffsetDateTime) : Except BundleError (List KeyId) := do
  let found ← checkEach (verifySignature dir content data keys now) ⟨[], [], false⟩ signatureNames
  refuseIf (found.foundAny = false)
    (.unsigned dir (joinPath dir (manifestFile ++ ".minisig")))
  let required := keys.requiredSignatures
  refuseIf (found.signers.length < required)
    (.insufficientSignatures dir found.signers.length required found.problems)
  .ok found.signers

variable (sha256 : Bytes → Sha256Digest)

/-- Read a listed file relative to the bundle root and check its exact size and hash. The
largest size, plus one, stays below `u64::MAX`. -/
def readListed (root : BundleDir) (entry : ManifestFile) : Except BundleError Bytes := do
  let err := BundleError.file entry.path
  let content ← (root.openWith entry.path).mapError (err ∘ .io)
  let data := content.take (min (entry.size + 1) (2 ^ 64 - 1))
  refuseIf (data.length ≠ entry.size) (err (.size data.length entry.size))
  refuseIf (sha256 data ≠ entry.sha256) (err (.hash (sha256 data) entry.sha256))
  .ok data

def readFile (root : BundleDir) (files : List BundleFile) (entry : ManifestFile) :
    Except BundleError (List BundleFile) := do
  let data ← readListed sha256 root entry
  .ok (files ++ [⟨entry.path, entry.kind, data⟩])

/-- Verify and load the bundle in `dir`. -/
def loadBundle (parseManifest : Bytes → Except String Manifest) (dir : String)
    (content : BundleDir) (keys : TrustedKeys ms) (opts : LoadOptions) :
    Except BundleError VerifiedBundle := do
  refuseIf (keys.isEmpty = true) (.trust .noTrustedKeys)
  let data ← (readBounded dir content manifestFile maxManifestBytes).mapError .trust
  let signers ← verifySignatures dir content data keys opts.now
  let manifest ← (parseManifest data).mapError (.invalidManifest ∘ .json)
  manifest.validate.mapError .invalidManifest
  let expired := decide (opts.now > manifest.expires)
  refuseIf (expired = true ∧ opts.allowExpired = false)
    (.expired manifest.name manifest.sequence manifest.expires)
  -- only now the listed files are read
  content.openDir.mapError (.file dir ∘ .io)
  let files ← checkEach (readFile sha256 content) [] manifest.files
  .ok ⟨dir, manifest, sha256 data, signers, expired, files⟩

end AbyssalWarden
