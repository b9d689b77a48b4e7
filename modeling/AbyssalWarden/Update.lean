import AbyssalWarden.ContentDir
import AbyssalWarden.ContentState

/-! Content updates: fetch the latest signed bundle from an update source, verify it completely,
and swap it into place. -/
namespace AbyssalWarden

variable {ms : Minisign}

/-- What the content code takes from its surroundings. -/
structure Content (ms : Minisign) where
  sha256 : Bytes → Sha256Digest
  parseManifest : Bytes → Except String Manifest
  parseTimestamp : Bytes → Except String Timestamp
  codec : StateCodec
  /-- Building the detectors of a bundle, for their errors alone. -/
  detectors : VerifiedBundle → Except String Unit

/-- The steps of an update that the system can refuse, besides those of the source. -/
inductive UpdateStep where
  | openState
  | createContentDir
  | stagingSuffix
  | createStaging
  | write (path : String)
  | reread
  | oldSuffix
  | setAside
  | install
  | save (step : SaveStep)
  deriving DecidableEq

inductive UpdateError where
  | missing (name : String)
  | fetch (name reason : String)
  | freshness (e : FreshnessError)
  | state (e : StateError)
  | bundle (e : BundleError)
  | mismatch (reason : String)
  | invalid (reason : String)
  | io (step : UpdateStep) (source : IoKind)
  deriving DecidableEq

structure UpdateOutcome where
  bundle : String
  previous : Option ℕ
  sequence : ℕ
  installed : String
  changed : Bool
  timestampVersion : ℕ
  timestampExpires : OffsetDateTime
  deriving DecidableEq

/-- The files of the source are what reading them gives, `none` where there is none. -/
structure UpdateOptions (ms : Minisign) where
  source : String → Except String (Option Bytes)
  contentDir : String
  statePath : String
  keys : TrustedKeys ms
  allowExpired : Bool
  validate : VerifiedBundle → Except String Unit

/-- One call: its clock, its random suffixes, and the step that fails in it, if one does. -/
structure UpdateCall where
  now : OffsetDateTime
  stagingSuffix : String
  oldSuffix : String
  fault : Option (UpdateStep × IoKind)

structure World where
  contentDir : ContentDir
  stateFile : Option Bytes

namespace UpdateCall

def attempt (call : UpdateCall) (step : UpdateStep) : Except UpdateError Unit :=
  match call.fault with
  | some (s, e) => refuseIf (s = step) (.io step e)
  | none => .ok ()

def openFault (call : UpdateCall) : Option IoKind :=
  match call.fault with
  | some (.openState, e) => some e
  | _ => none

def saveFault (call : UpdateCall) : Option (SaveStep × IoKind) :=
  match call.fault with
  | some (.save step, e) => some (step, e)
  | _ => none

end UpdateCall

/-! ### Fetching -/

/-- The file `rel`, at most `limit` bytes; `none` if it does not exist. -/
def UpdateOptions.get (opts : UpdateOptions ms) (rel : String) (limit : ℕ) :
    Except UpdateError (Option Bytes) :=
  match opts.source rel with
  | .error reason => .error (.fetch rel reason)
  | .ok none => .ok none
  | .ok (some data) =>
    if data.length > limit then .error (.fetch rel "larger than the limit") else .ok (some data)

def UpdateOptions.require (opts : UpdateOptions ms) (rel : String) (limit : ℕ) :
    Except UpdateError Bytes := do
  match ← opts.get rel limit with
  | some data => .ok data
  | none => .error (.missing rel)

/-! ### Freshness -/

variable (c : Content ms) (opts : UpdateOptions ms) (call : UpdateCall)

/-- The state, the keys that are not revoked in it, and the checked timestamp. -/
def checkChannel (stateFile : Option Bytes) :
    Except UpdateError (ContentState × TrustedKeys ms × Timestamp) := do
  let tsData ← opts.require timestampFile maxTimestampBytes
  let tsSig ← opts.require (timestampFile ++ ".minisig") maxSignatureBytes
  match fromUtf8 tsSig with
  | none => .error (.mismatch "timestamp signature is not text")
  | some tsSig => do
    let state ← (ContentState.openState c.codec opts.statePath call.openFault stateFile).mapError
      .state
    let keys := opts.keys.revokeAll state.revokedKeys
    let verified ← (verifyTimestamp c.sha256 c.parseTimestamp tsData tsSig keys call.now
      opts.allowExpired).mapError .freshness
    (state.checkTimestamp verified.timestamp).mapError .state
    .ok (state, keys, verified.timestamp)

/-! ### Download into staging -/

/-- `create_dir_all(parent)` and `create_new`: in a fresh directory a file cannot take the path of
another file, of a directory above one, or lie below one. -/
def writeFile (files : List (String × Bytes)) (path : String) (data : Bytes) :
    Except UpdateError (List (String × Bytes)) := do
  call.attempt (.write path)
  refuseIf (∃ f ∈ files, pathComponents f.1 <+: pathComponents path ∨
      pathComponents path <+: pathComponents f.1)
    (.io (.write path) (.other "File exists (os error 17)"))
  .ok (files ++ [(path, data)])

/-- `manifest.json.minisig.2` and on, up to the first that does not exist. -/
def downloadSignatures (files : List (String × Bytes)) :
    List String → Except UpdateError (List (String × Bytes))
  | [] => .ok files
  | name :: names => do
    match ← opts.get name maxSignatureBytes with
    | none => .ok files
    | some sig => do
      let files ← writeFile call files name sig
      downloadSignatures files names

def downloadFile (files : List (String × Bytes)) (f : ManifestFile) :
    Except UpdateError (List (String × Bytes)) := do
  let data ← opts.require f.path f.size
  refuseIf (data.length ≠ f.size ∨ c.sha256 data ≠ f.sha256)
    (.mismatch (f.path ++ " differs from its manifest entry"))
  writeFile call files f.path data

/-- Everything the release consists of, as it is written to the staging directory. -/
def download (ts : Timestamp) : Except UpdateError (List (String × Bytes)) := do
  let manifestData ← opts.require manifestFile maxManifestBytes
  -- the manifest is the one that the timestamp names
  refuseIf (manifestData.length ≠ ts.manifestSize ∨ c.sha256 manifestData ≠ ts.manifestSha256)
    (.mismatch "manifest.json differs from the one the timestamp names")
  let manifest ← (c.parseManifest manifestData).mapError fun e => .mismatch ("manifest.json: " ++ e)
  manifest.validate.mapError (.bundle ∘ .invalidManifest)
  refuseIf (manifest.name ≠ ts.bundle ∨ manifest.sequence ≠ ts.sequence)
    (.mismatch "manifest name or sequence differs from the timestamp")
  let files ← writeFile call [] manifestFile manifestData
  let first := manifestFile ++ ".minisig"
  -- the first signature is required, the others are taken while there are more
  let sig ← opts.require first maxSignatureBytes
  let files ← writeFile call files first sig
  let files ← downloadSignatures opts call files signatureNames.tail
  -- and every listed file, checked against its size and digest
  checkEach (downloadFile c opts call) files manifest.files

/-! ### Verification and swap -/

/-- Verify exactly as a scan would, then rollback, then content. -/
def verifyStaged (state : ContentState) (keys : TrustedKeys ms) (staging : String)
    (files : List (String × Bytes)) : Except UpdateError VerifiedBundle := do
  call.attempt .reread
  let verified ← (loadBundle c.sha256 c.parseManifest staging (dirOf files) keys
    ⟨opts.allowExpired, call.now⟩).mapError .bundle
  (state.check verified (keys.minSequence verified.manifest.name)).mapError .state
  (opts.validate verified).mapError .invalid
  call.attempt .oldSuffix
  .ok verified

/-- Both halves of what happens while the staging directory is there. -/
def stage (state : ContentState) (keys : TrustedKeys ms) (ts : Timestamp) (staging : String) :
    Except UpdateError (List (String × Bytes) × VerifiedBundle) := do
  let files ← download c opts call ts
  let verified ← verifyStaged c opts call state keys staging files
  .ok (files, verified)

/-- `create_dir(&staging_path)` under a name with a random suffix. -/
def createStaging (d : ContentDir) (staging : String) : Except UpdateError ContentDir := do
  call.attempt .stagingSuffix
  call.attempt .createStaging
  refuseIf (d[staging]?.isSome = true) (.io .createStaging (.other "File exists (os error 17)"))
  .ok (d.insert staging (.plain (.dir (dirOf []))))

def renameStep (step : UpdateStep) (d : ContentDir) (source target : String) :
    Except UpdateError ContentDir := do
  call.attempt step
  (d.rename source target).mapError (.io step)

/-- Swap into place; the directory is what the two renames, or the first and its undoing, leave. -/
def swap (d : ContentDir) (target staging old : String) :
    Except UpdateError Bool × ContentDir :=
  let hadOld := d.exists? target
  match (if hadOld then renameStep call .setAside d target old else .ok d) with
  | .error e => (.error e, d)
  | .ok aside =>
    match renameStep call .install aside staging target with
    | .error e =>
      -- put the old directory back, if that works
      if hadOld then
        match aside.rename old target with
        | .ok undone => (.error e, undone)
        | .error _ => (.error e, aside)
      else (.error e, aside)
    | .ok installed => (.ok hadOld, installed)

/-! ### The update -/

/-- The installed manifest is the one the timestamp names. -/
def alreadyCurrent (d : ContentDir) (ts : Timestamp) : Bool :=
  match d.readManifest ts.bundle with
  | .ok installed => c.sha256 installed = ts.manifestSha256
  | .error _ => false

def stagingName (ts : Timestamp) : String := stagingPrefix ts.bundle ++ call.stagingSuffix
def oldName (ts : Timestamp) : String := oldPrefix ts.bundle ++ call.oldSuffix

def outcome (state : ContentState) (ts : Timestamp) (changed : Bool) : UpdateOutcome where
  bundle := ts.bundle
  previous := (state.recordFor ts.bundle).map BundleRecord.sequence
  sequence := ts.sequence
  installed := joinPath opts.contentDir ts.bundle
  changed := changed
  timestampVersion := ts.version
  timestampExpires := ts.expires

/-- The update once the channel is known to be fresh and the directory is recovered. An error
after the staging directory is made removes it. -/
def updateBundle (state : ContentState) (keys : TrustedKeys ms) (ts : Timestamp) (w : World) :
    Except UpdateError UpdateOutcome × World :=
  -- only the timestamp is recorded then
  if alreadyCurrent c w.contentDir ts then
    match (state.recordTimestamp ts call.now).save c.codec call.saveFault w.stateFile with
    | (.error e, file) => (.error (.state e), { w with stateFile := file })
    | (.ok (), file) => (.ok (outcome opts state ts false), { w with stateFile := file })
  else
    let staging := stagingName call ts
    match createStaging call w.contentDir staging with
    | .error e => (.error e, w)
    -- everything is written and verified in the staging directory
    | .ok d =>
      match stage c opts call state keys ts (joinPath opts.contentDir staging) with
      | .error e => (.error e, { w with contentDir := d.removeDirAll staging })
      | .ok (files, verified) =>
        let d := d.insert staging (.plain (.dir (dirOf files)))
        match swap call d ts.bundle staging (oldName call ts) with
        | (.error e, d) => (.error e, { w with contentDir := d.removeDirAll staging })
        | (.ok hadOld, d) =>
          -- the new bundle is in place here, and a failing save leaves it so
          let recorded := (state.record verified call.now).recordTimestamp ts call.now
          match recorded.save c.codec call.saveFault w.stateFile with
          | (.error e, file) => (.error (.state e), ⟨d, file⟩)
          | (.ok (), file) =>
            (.ok (outcome opts state ts true),
              ⟨if hadOld then d.removeDirAll (oldName call ts) else d, file⟩)

/-- Checks the source and installs a newer bundle if there is one. -/
def update (w : World) : Except UpdateError UpdateOutcome × World :=
  match checkChannel c opts call w.stateFile with
  | .error e => (.error e, w)
  | .ok (state, keys, ts) =>
    match call.attempt .createContentDir with
    | .error e => (.error e, w)
    | .ok () =>
      updateBundle c opts call state keys ts
        { w with contentDir := recover w.contentDir ts.bundle }

end AbyssalWarden
