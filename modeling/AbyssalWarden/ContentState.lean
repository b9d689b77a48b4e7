import AbyssalWarden.Freshness
import AbyssalWarden.GrowingMap

/-! Rollback protection: the highest sequence accepted of each bundle, the newest timestamp seen
for it, and the keys that accepted manifests revoked. -/
namespace AbyssalWarden

structure BundleRecord where
  sequence : ℕ
  manifestSha256 : Sha256Digest
  signers : List String
  acceptedAt : OffsetDateTime
  deriving DecidableEq

/-- The newest update-channel timestamp seen for a bundle. -/
structure TimestampRecord where
  version : ℕ
  expires : OffsetDateTime
  checkedAt : OffsetDateTime
  deriving DecidableEq

/-- A key revoked by an accepted bundle manifest. -/
structure RevocationRecord where
  byBundle : String
  sequence : ℕ
  recordedAt : OffsetDateTime
  deriving DecidableEq

structure StateFile where
  formatVersion : ℕ
  bundles : BTreeMap String BundleRecord
  revokedKeys : BTreeMap String RevocationRecord
  timestamps : BTreeMap String TimestampRecord
  deriving DecidableEq

inductive StateError where
  | timestampRollback (name : String) (offered recorded : ℕ)
  | staleTimestamp (name : String) (offered recorded : ℕ)
  | io (path : String) (source : IoKind)
  | corrupt (path reason : String)
  | rollback (name : String) (offered recorded : ℕ)
  | equivocation (name : String) (sequence : ℕ)
  deriving DecidableEq

def maxStateBytes : ℕ := 4 * 1024 * 1024

/-- The JSON of a state file: what was written is read back. -/
structure StateCodec where
  toVec : StateFile → Except String Bytes
  fromSlice : Bytes → Except String StateFile
  fromSlice_toVec : ∀ d json, toVec d = .ok json → fromSlice json = .ok d

/-- A codec that knows the JSON of one state. -/
def codecOf (d : StateFile) (json : Bytes) : StateCodec where
  toVec d' := if d' = d then .ok json else .error "unknown state"
  fromSlice bytes := if bytes = json then .ok d else .error "unknown JSON"
  fromSlice_toVec := by
    intro d' bytes h
    split at h
    · rename_i hd
      cases h
      rw [if_pos rfl, hd]
    · cases h

/-- The state while it is open. -/
structure ContentState where
  path : String
  data : StateFile

/-- `StateFile { format_version: 1, ..StateFile::default() }` -/
def StateFile.empty : StateFile := ⟨1, ∅, ∅, ∅⟩

/-- `str::to_ascii_uppercase` -/
def toAsciiUppercase (s : String) : String := String.ofList (s.toList.map Char.toUpper)

namespace ContentState

/-- Open (or start) the state at `path`; `file` is what stands there, and `fault` an error from the
directory, the lock, or from opening or reading the file. -/
def openState (codec : StateCodec) (path : String) (fault : Option IoKind) (file : Option Bytes) :
    Except StateError ContentState := do
  refuseSome fault (.io path)
  match file with
  | none => .ok ⟨path, StateFile.empty⟩
  | some bytes =>
    let bytes := bytes.take (maxStateBytes + 1)
    refuseIf (bytes.length > maxStateBytes) (.corrupt path "too large")
    let data ← (codec.fromSlice bytes).mapError (.corrupt path)
    refuseIf (data.formatVersion ≠ 1) (.corrupt path "unsupported format_version")
    .ok ⟨path, data⟩

def recordFor (s : ContentState) (name : String) : Option BundleRecord := s.data.bundles[name]?

/-- Key IDs revoked by accepted manifests. -/
def revokedKeys (s : ContentState) : List String := s.data.revokedKeys.keys

/-- Refuse `bundle` if it would roll back, or equivocate with, what was accepted before. -/
def check (s : ContentState) (bundle : VerifiedBundle) (floor : Option ℕ) :
    Except StateError Unit := do
  let m := bundle.manifest
  refuseSome (floor.filter fun f => m.sequence < f) fun f => .rollback m.name m.sequence f
  match s.data.bundles[m.name]? with
  | none => .ok ()
  | some r =>
    if m.sequence < r.sequence then .error (.rollback m.name m.sequence r.sequence)
    else if m.sequence = r.sequence ∧ bundle.manifestSha256 ≠ r.manifestSha256 then
      .error (.equivocation m.name m.sequence)
    else .ok ()

def timestampFor (s : ContentState) (name : String) : Option TimestampRecord :=
  s.data.timestamps[name]?

/-- Refuse an update-channel timestamp older than one already seen, or naming an older bundle than
the one accepted. -/
def checkTimestamp (s : ContentState) (ts : Timestamp) : Except StateError Unit := do
  refuseSome (s.data.timestamps[ts.bundle]?.filter fun r => ts.version < r.version)
    fun r => .timestampRollback ts.bundle ts.version r.version
  refuseSome (s.data.bundles[ts.bundle]?.filter fun b => ts.sequence < b.sequence)
    fun b => .staleTimestamp ts.bundle ts.sequence b.sequence

/-- Record a checked timestamp. -/
def recordTimestamp (s : ContentState) (ts : Timestamp) (now : OffsetDateTime) : ContentState :=
  if s.data.timestamps[ts.bundle]?.all fun r => ts.version ≥ r.version then
    { s with
      data := { s.data with
        timestamps := s.data.timestamps.insert ts.bundle ⟨ts.version, ts.expires, now⟩ } }
  else s

/-- `entry(..).or_insert_with(..)` for each key the manifest revokes. -/
def recordRevocations (m : Manifest) (now : OffsetDateTime)
    (revoked : BTreeMap String RevocationRecord) : BTreeMap String RevocationRecord :=
  m.revokeKeys.foldl
    (fun revoked id => revoked.insertIfNew (toAsciiUppercase id) ⟨m.name, m.sequence, now⟩) revoked

/-- Record `bundle` as accepted, including any keys it revokes. -/
def record (s : ContentState) (bundle : VerifiedBundle) (now : OffsetDateTime) : ContentState :=
  let m := bundle.manifest
  let data := { s.data with revokedKeys := recordRevocations m now s.data.revokedKeys }
  if data.bundles[m.name]?.all fun r => m.sequence > r.sequence then
    { s with
      data := { data with
        bundles := data.bundles.insert m.name
          ⟨m.sequence, bundle.manifestSha256, bundle.signers.map KeyId.toString, now⟩ } }
  else { s with data := data }

end ContentState

/-- The steps of a save that the system can refuse. -/
inductive SaveStep where
  | openTmp
  | write
  | syncFile
  | rename
  | syncDir
  deriving DecidableEq

/-- Write the state: to a temporary file that is renamed over the old one. The second component is
what stands at the path afterwards; when only the sync of the directory fails, the new file is
already there. -/
def ContentState.save (codec : StateCodec) (fault : Option (SaveStep × IoKind)) (s : ContentState)
    (file : Option Bytes) : Except StateError Unit × Option Bytes :=
  match codec.toVec s.data with
  | .error e => (.error (.io s.path (.other e)), file)
  | .ok json =>
    match fault with
    | none => (.ok (), some json)
    | some (.syncDir, e) => (.error (.io s.path e), some json)
    | some (_, e) => (.error (.io s.path e), file)

end AbyssalWarden
