import AbyssalWarden.WindowsSystem

/-! The Windows quarantine store. Same layout, record format, audit chain and crash-safe sequence as the Linux store;
files are pinned by a handle, deleted through it, and restored by a hard link. -/
namespace AbyssalWarden

/-- A directory, opened without following a reparse point. -/
structure DirectoryHandle where
  isDir : Bool
  reparse : Bool
  finalPath : Except Errno NativePath

/-- What the store runs on: what it shares with the Linux store, and how Windows resolves paths and protects files.
`entry` is the directory entry that a path names. -/
structure WindowsHost where
  base : Host
  paths : WindowsPaths
  userSid : String
  entry : NativePath → FileKey
  finalPath : FileKey → Except Errno NativePath
  directory : NativePath → Except Errno DirectoryHandle
  /-- The security descriptor, if its text can be analysed. -/
  security : NativePath → Except Errno (Option Sddl.Descriptor)
  protectedRoots : List (List Char)

structure ProcessInfo where
  pid : ℕ
  name : String
  image : Option NativePath

/-- What one call gets from the system: random values, clock readings, the processes with what stopping them came
to, and what a new file gets. -/
structure WindowsDraws where
  id : QuarantineId
  key : Key
  /-- `meta.modified().ok().map(OffsetDateTime::from)`. The conversion panics on a time out of range: such a call ends
  before its next operation, as one does that is stopped there. -/
  modified : Option OffsetDateTime
  processes : List ProcessInfo
  terminated : List (Except Errno Bool)
  dev : ℕ
  index : ℕ
  mtime : ℤ
  now : Now
  later : Now
  audited : Now

/-- An error of what both stores do alike, with the path it names here. -/
def WindowsError.naming (path : NativePath) : RemediationError → WindowsError
  | .io op _ source => .common (.io op path source)
  | e => .common e

/-- What both stores do alike. -/
def Prog.inVolume {α : Type} (p : StoreProg α) (path : NativePath) : WindowsProg α :=
  p.within volumePart (.naming path)

/-- `if bad { return Err(e) }` -/
abbrev refuseCommon (bad : Prop) [Decidable bad] (e : RemediationError) : WindowsProg Unit :=
  Prog.ofExcept (refuseIf bad (.common e))

variable (host : WindowsHost)

namespace WindowsHost

def itemPath (f : ItemFile) : NativePath :=
  host.paths.join (host.paths.join host.base.root (NativePath.ofString "items")) (NativePath.ofString f.name)

def auditPath : NativePath := host.paths.join host.base.root (NativePath.ofString "audit.log")

def insideStore (p : NativePath) : Bool :=
  let root := host.paths.norm host.base.root
  host.paths.norm p = root || (root ++ ['\\']).isPrefixOf (host.paths.norm p)

def isProtectedPath (path : NativePath) : Bool :=
  windowsPathUnder (host.paths.toStringLossy path).toList host.protectedRoots

/-- Opens `path` as a directory and checks that no reparse point was followed anywhere along it. -/
def openDirNoReparse (path : NativePath) : Except RemediationError Unit := do
  let dir ← (host.directory path).mapError (.io "open" path)
  refuseIf (dir.isDir = false ∨ dir.reparse = true) (.symlinkInPath path)
  let actual ← dir.finalPath.mapError (.io "resolve" path)
  refuseIf (host.paths.norm actual ≠ host.paths.norm path) (.symlinkInPath path)

/-! ### Audit log and records -/

def auditEntry (store : QuarantineStore) (now : Now) (action : String) (id : Option QuarantineId)
    (path : Option NativePath) (sha256 : Option Sha256Digest)
    (outcome : Except String (Option String)) : AuditEntry where
  seq := 0
  time := now.1
  actorUid := 0
  actorSid := some host.userSid
  onBehalfOf := store.onBehalfOf
  action := action
  item := id.map QuarantineId.text
  path := path.map host.paths.observedPath
  sha256 := sha256
  outcome := match outcome with
    | .ok _ => "ok"
    | .error _ => "error"
  detail := match outcome with
    | .ok detail => detail
    | .error e => some e
  prev := ""

def auditEvent (store : QuarantineStore) (now : Now) (action : String) (id : Option QuarantineId)
    (path : Option NativePath) (sha256 : Option Sha256Digest)
    (outcome : Except String (Option String)) : WindowsProg QuarantineStore :=
  (host.base.appendEntry store (host.auditEntry store now action id path sha256 outcome)).inVolume host.auditPath

/-- Atomically replace `items/<id>.json`. -/
def save (record : QuarantineRecord) : WindowsProg Unit := do
  let path := host.itemPath (.json record.id)
  let tmp := host.itemPath (.jsonTmp record.id)
  let data ← Prog.ofExcept ((host.base.records.toVecPretty record).mapError fun e =>
    .common (.io "encode" path (.other e)))
  (VolumeCall.store (.truncateItem (.jsonTmp record.id))).orErr (.common <| .io "create" tmp ·)
  (VolumeCall.store (.appendItem (.jsonTmp record.id) data)).orErr (.common <| .io "write" tmp ·)
  (VolumeCall.store (.syncItem (.jsonTmp record.id))).orErr (.common <| .io "sync" tmp ·)
  (VolumeCall.store (.renameItem (.jsonTmp record.id) (.json record.id))).orErr (.common <| .io "rename" path ·)

def get (id : QuarantineId) : WindowsProg QuarantineRecord := do
  let data ← (VolumeCall.store (.readItem (.json id))).orErr fun e =>
    if e = .noent then .common (.unknownItem id) else .common (.io "read" (host.itemPath (.json id)) e)
  Prog.ofExcept ((host.base.parseRecord id data).mapError .common)

/-- Discard the copy and record that the original was not removed. -/
def rollBack (record : QuarantineRecord) (now : Now) (why : String) : WindowsProg Unit := do
  (VolumeCall.store (.removeItem (.data record.id))).ignored
  host.save { record with
    state := .rolledBack
    updatedAt := now.1
    notes := record.notes ++ ["rolled back: " ++ why] }

/-- Decode a file of the item, hashing it and optionally writing it out. -/
def decodePath (id : QuarantineId) (f : ItemFile) (key : Bytes) (out : Option FileKey) :
    WindowsProg (Sha256Digest × ℕ) :=
  (host.base.decodeFile id f key out).inVolume (host.itemPath f)

def decodeTo (id : QuarantineId) (key : Bytes) (out : Option FileKey) : WindowsProg (Sha256Digest × ℕ) :=
  host.decodePath id (.data id) key out

/-- Copy the pinned file into `items/<id>.data.tmp` encoded, flush, then re-read and verify. -/
def writeEncoded (id : QuarantineId) (source : FileKey) (key : Bytes) (max : ℕ) (path : NativePath) :
    WindowsProg (Sha256Digest × ℕ) := do
  let content ← (VolumeCall.readPinned source).orErr fun e =>
    if isInUse e then .inUse path else .common (.io "read" path e)
  (host.base.writeEncoded id content key max path).inVolume (host.itemPath (.dataTmp id))

/-! ### Quarantine -/

/-- The processes that run the file. -/
def running (path : NativePath) (d : WindowsDraws) : List ProcessInfo :=
  d.processes.filter fun p => p.image.any fun image => host.paths.norm image = host.paths.norm path

/-- The path, the pinned file and the checks before anything is copied. -/
def openOriginal (req : QuarantineRequest) : WindowsProg (FileKey × FileNode) := do
  let path := req.path
  let _ ← Prog.ofExcept ((host.paths.splitChecked path).mapError .common)
  refuseCommon (req.allowProtected = false ∧ host.isProtectedPath path = true) (.protectedPath path)
  refuseCommon (host.insideStore path = true) (.insideStore path)
  let key := host.entry path
  -- Read + delete for us, read-only sharing for others.
  let st ← (VolumeCall.openPinned key).orErr fun e => if isInUse e then .inUse path else .common (.io "open" path e)
  refuseCommon (st.kind = .symlink) (.symlinkInPath path)
  refuseCommon (st.kind ≠ .regular) (.notRegularFile path)
  let actual ← Prog.ofExcept ((host.finalPath key).mapError (.common <| .io "resolve" path ·))
  refuseCommon (host.paths.norm actual ≠ host.paths.norm path) (.symlinkInPath path)
  refuseCommon (host.insideStore actual = true) (.insideStore path)
  refuseCommon (st.content.length > req.maxSize) (.tooLarge path req.maxSize)
  refuseCommon (st.nlink > 1) (.hardLinked path st.nlink)
  pure (key, st)

/-- Copy, verify and compare; the partial copy is removed on any error. -/
def copyOriginal (req : QuarantineRequest) (d : WindowsDraws) (key : FileKey) : WindowsProg (Sha256Digest × ℕ) := do
  let tmp := VolumeCall.store (.removeItem (.dataTmp d.id))
  let (sha256, copied) ← (host.writeEncoded d.id key d.key.1 req.maxSize req.path).orCleanup tmp.ignored
  match req.expectedSha256 with
  | none => pure (sha256, copied)
  | some expected =>
    if expected ≠ sha256 then do
      tmp.ignored
      Prog.throw (.common (.fileChanged req.path expected sha256))
    else pure (sha256, copied)

/-- The journal record of a copy. -/
def pendingRecord (req : QuarantineRequest) (d : WindowsDraws) (st : FileNode) (sha256 : Sha256Digest)
    (copied : ℕ) : QuarantineRecord where
  formatVersion := recordFormatVersion
  id := d.id
  state := .pending
  original :=
    { path := host.paths.observedPath req.path
      size := copied
      sha256 := sha256
      mode := st.mode
      -- an owner is a SID here
      uid := 0
      gid := 0
      dev := st.dev
      ino := st.ino
      ownerSid := match host.security req.path with
        | .ok (some descriptor) => descriptor.owner
        | _ => none
      modified := d.modified }
  keyHex := String.ofList (hexEncode d.key.1)
  reason := req.reason
  actorUid := 0
  createdAt := d.now.1
  updatedAt := d.now.1
  restoredTo := none
  notes := []

/-- The handle that pins the original. -/
def pinnedAccess : List Access := [.read, .delete]

/-- Up to `n` more attempts to delete the original; the last result. -/
def retryDelete (key : FileKey) : ℕ → Except Errno Unit → WindowsProg (Except Errno Unit)
  | 0, last => pure last
  | n + 1, _ => do
    let deleted ← (VolumeCall.deleteByHandle key pinnedAccess).result
    match deleted with
    | .ok _ => pure (.ok ())
    | .error e => retryDelete key n (.error e)

/-- Delete through the pinned handle. A running program's image cannot be deleted; with `kill_processes` it is
terminated first. Returns whether processes were stopped, too. -/
def deleteOriginal (req : QuarantineRequest) (running : List ProcessInfo) (key : FileKey) :
    WindowsProg (Except Errno Unit × Bool) := do
  let deleted ← (VolumeCall.deleteByHandle key pinnedAccess).result
  match deleted with
  | .ok _ => pure (.ok (), false)
  | .error e =>
    if req.killProcesses = true ∧ running ≠ [] then do
      let deleted ← retryDelete key 50 (.error e)
      pure (deleted, true)
    else pure (.error e, false)

def processText (p : ProcessInfo) : String := "PID " ++ toString p.pid ++ " (" ++ p.name ++ ")"

/-- What is noted of the processes that were to be stopped. -/
def killNotes (running : List ProcessInfo) (terminated : List (Except Errno Bool)) : List String :=
  let results := running.zip terminated
  let problems := results.filterMap fun (p, r) => match r with
    | .error e => some ("could not stop PID " ++ toString p.pid ++ ": " ++ e.text)
    | .ok _ => none
  let killed := results.filterMap fun (p, r) => match r with
    | .ok true => some (processText p)
    | _ => none
  problems ++ (if killed = [] then []
    else ["killed process(es) running the file: " ++ ", ".intercalate killed])

def quarantineInner (store : QuarantineStore) (req : QuarantineRequest) (d : WindowsDraws) :
    WindowsProg (QuarantineStore × QuarantineRecord) := do
  let path := req.path
  let (key, st) ← host.openOriginal req
  let running := host.running path d
  let (sha256, copied) ← host.copyOriginal req d key
  let record := host.pendingRecord req d st sha256 copied
  host.save record
  (VolumeCall.store (.renameItem (.dataTmp d.id) (.data d.id))).orErr
    (.common <| .io "rename" (host.itemPath (.data d.id)) ·)
  let (deleted, stopped) ← deleteOriginal req running key
  -- processes are stopped only where the deletion needed it
  let record := { record with notes := record.notes ++ if stopped then killNotes running d.terminated else [] }
  match deleted with
  | .error e =>
    -- the original is still there, so the copy is discarded
    let why := if running = [] then "removing the original failed: " ++ e.text
      else "removing the original failed (" ++ e.text ++ "); it is running (use --kill-processes)"
    host.rollBack record d.later why
    Prog.throw (if running = [] then .common (.io "remove" path e) else .inUse path)
  | .ok _ =>
    let wasRunning := if running ≠ [] ∧ req.killProcesses = false then
      ["was running as " ++ ", ".intercalate (running.map processText)] else []
    let record := { record with
      state := .quarantined
      updatedAt := d.later.1
      notes := record.notes ++ wasRunning }
    host.save record
    let store ← host.auditEvent store d.audited "quarantine" (some d.id) (some path) (some sha256) (.ok none)
    pure (store, record)

def quarantine (store : QuarantineStore) (req : QuarantineRequest) (d : WindowsDraws) :
    Prog windowsSystem Empty (QuarantineStore × Except WindowsError QuarantineRecord) := do
  let result ← (host.quarantineInner store req d).attempt
  match result with
  | .ok (store, record) => pure (store, .ok record)
  | .error e => do
    let audited ← (host.auditEvent store d.audited "quarantine" none (some req.path) req.expectedSha256
      (.error e.text)).attempt
    match audited with
    | .ok store => pure (store, .error e)
    | .error e => pure (store, .error e)

/-! ### Restore -/

/-- Rights that let someone create or replace files in a directory. -/
def createInDir : ℕ := 0x2 ||| 0x4 ||| 0x40 ||| 0x10000000 ||| 0x40000000 ||| 0x00040000 ||| 0x00080000

/-- Where an item goes back to: its original directory, or the one asked for; and its name. -/
def restoreTarget (id : QuarantineId) (record : QuarantineRecord) (destDir : Option NativePath) :
    Except RemediationError (NativePath × Bytes) := do
  match host.paths.nativePath record.original.path with
  | none => .error (.corrupt id "original path cannot be reconstructed")
  | some original =>
    let (origParent, name) ← host.paths.splitChecked original
    let targetDir ← match destDir with
      | some d => (host.paths.splitChecked d).map fun (p, n) => host.paths.join p n
      | none => .ok origParent
    .ok (targetDir, name)

/-- The checks on the directory that an item is restored into. -/
def checkTargetDir (record : QuarantineRecord) (targetDir target : NativePath) : Except RemediationError Unit := do
  refuseIf (host.insideStore target = true) (.insideStore target)
  (host.openDirNoReparse targetDir).mapError fun e => match e with
    | .io _ _ .noent => .unsafeTarget targetDir "the directory does not exist"
    | e => e
  let descriptor ← (host.security targetDir).mapError (.io "read security of" targetDir)
  match descriptor with
  | none => .error (.unsafeTarget targetDir "its security descriptor could not be analysed")
  | some descriptor =>
    let trusted := [Sddl.system, Sddl.administrators, Sddl.trustedInstaller, host.userSid] ++
      record.original.ownerSid.toList
    let others := Sddl.grantedToOthers descriptor createInDir trusted
    refuseIf (others ≠ []) (.unsafeTarget targetDir
      ("other users can create files there (" ++ ", ".intercalate others ++ ")"))

/-- The checks on a record and a directory before anything is written: the directory, the target and the key. -/
def prepareRestore (id : QuarantineId) (record : QuarantineRecord) (destDir : Option NativePath) :
    Except RemediationError (NativePath × NativePath × Bytes) := do
  refuseIf (record.state ≠ .quarantined) (.invalidState id record.state)
  let (targetDir, name) ← host.restoreTarget id record destDir
  let target := host.paths.join targetDir name
  host.checkTargetDir record targetDir target
  match Host.recordKey record with
  | none => .error (.corrupt id "invalid key")
  | some key => .ok (targetDir, target, key)

/-- `.aw-restore-<id>` in the directory -/
def restoreTmp (id : QuarantineId) (targetDir : NativePath) : NativePath :=
  host.paths.join targetDir (NativePath.ofString (".aw-restore-" ++ id.text))

/-- How the temporary file of a restore is opened: `write(true)`. -/
def restoreAccess : List Access := [.write]

/-- `let _ = delete_by_handle(f)` -/
def cleanup (tmp : FileKey) : WindowsProg Unit := (VolumeCall.deleteByHandle tmp restoreAccess).ignored

/-- Write the decoded content to the temporary file, checked against the recorded hash. -/
def writeRestored (id : QuarantineId) (record : QuarantineRecord) (key : Bytes) (tmp : NativePath) :
    WindowsProg Unit := do
  let (sha, _) ← host.decodeTo id key (some (host.entry tmp))
  refuseCommon (sha ≠ record.original.sha256) (.corrupt id "decoded content does not match the recorded SHA-256")
  (VolumeCall.store (.syncFile (host.entry tmp))).orErr (.common <| .io "sync" tmp ·)

/-- Give the content its real name without replacing anything. -/
def linkRestored (tmp target : NativePath) : WindowsProg Unit := do
  let linked ← (VolumeCall.store (.linkFile (host.entry tmp) (host.entry target))).result
  match linked with
  | .ok _ => cleanup (host.entry tmp)
  | .error e => do
    cleanup (host.entry tmp)
    Prog.throw (.common (if e = .exist then .targetExists target else .io "restore" target e))

/-- The restored item. -/
def restoredRecord (record : QuarantineRecord) (target : NativePath) (now : Now) : QuarantineRecord :=
  { record with
    state := .restored
    updatedAt := now.1
    restoredTo := some (host.paths.observedPath target)
    notes := record.notes ++ ["file owner and attributes were not restored"] }

/-- What follows once the temporary file is there. -/
def finishRestore (id : QuarantineId) (record : QuarantineRecord) (d : WindowsDraws) (key : Bytes)
    (tmp target : NativePath) : WindowsProg NativePath := do
  (host.writeRestored id record key tmp).orCleanup (cleanup (host.entry tmp))
  host.linkRestored tmp target
  (VolumeCall.store (.removeItem (.data id))).orErr (.common <| .io "remove" (host.itemPath (.data id)) ·)
  host.save (host.restoredRecord record target d.later)
  pure target

/-- Create the temporary file, give it the content, and the content its name. -/
def createRestored (id : QuarantineId) (record : QuarantineRecord) (d : WindowsDraws)
    (prepared : NativePath × NativePath × Bytes) : WindowsProg NativePath := do
  let (targetDir, target, key) := prepared
  let tmp := host.restoreTmp id targetDir
  (VolumeCall.store (.createFile (host.entry tmp)
    { kind := .regular, content := [], dev := d.dev, ino := d.index, mode := 0, uid := 0, gid := 0, nlink := 1,
      mtime := d.mtime })).orErr (.common <| .io "create" tmp ·)
  host.finishRestore id record d key tmp target

def restoreInner (id : QuarantineId) (destDir : Option NativePath) (d : WindowsDraws) : WindowsProg NativePath := do
  let record ← host.get id
  let prepared ← Prog.ofExcept ((host.prepareRestore id record destDir).mapError .common)
  host.createRestored id record d prepared

/-- A call whose result is audited, and then returned unless the audit fails. -/
def audited {α : Type} (store : QuarantineStore) (inner : WindowsProg α) (now : Now) (action : String)
    (id : QuarantineId) (detail : α → Option String) :
    Prog windowsSystem Empty (QuarantineStore × Except WindowsError α) := do
  let result ← inner.attempt
  let audited ← (host.auditEvent store now action (some id) none none
    ((result.map detail).mapError WindowsError.text)).attempt
  match audited with
  | .ok store => pure (store, result)
  | .error e => pure (store, .error e)

/-- Restore an item to its original directory, or to `destDir`. -/
def restore (store : QuarantineStore) (id : QuarantineId) (destDir : Option NativePath) (d : WindowsDraws) :
    Prog windowsSystem Empty (QuarantineStore × Except WindowsError NativePath) :=
  host.audited store (host.restoreInner id destDir d) d.audited "restore" id
    fun target => some ("restored to " ++ target.display)

/-! ### Delete -/

def deleteInner (id : QuarantineId) (d : WindowsDraws) : WindowsProg Unit := do
  let record ← host.get id
  refuseCommon (record.state ≠ .quarantined) (.invalidState id record.state)
  let removed ← (VolumeCall.store (.removeItem (.data id))).result
  let notes ← match removed with
    | .ok _ => pure []
    | .error .noent => pure ["content was already missing"]
    | .error e => Prog.throw (.common (.io "remove" (host.itemPath (.data id)) e))
  host.save { record with
    state := .deleted
    updatedAt := d.later.1
    notes := record.notes ++ notes }

def delete (store : QuarantineStore) (id : QuarantineId) (d : WindowsDraws) :
    Prog windowsSystem Empty (QuarantineStore × Except WindowsError Unit) :=
  host.audited store (host.deleteInner id d) d.audited "delete" id fun _ => none

/-! ### Opening the store -/

/-- The original is at its path and can be opened, the same file. -/
def originalPresent (record : QuarantineRecord) : WindowsProg Bool :=
  match host.paths.nativePath record.original.path with
  | none => pure false
  | some path => do
    let information ← (VolumeCall.information (host.entry path)).result
    match information with
    | .ok (dev, index) => pure (dev = record.original.dev && index = record.original.ino)
    | .error _ => pure false

/-- The copy decodes to what was recorded. -/
def copyVerified (record : QuarantineRecord) : WindowsProg Bool :=
  match Host.recordKey record with
  | none => pure false
  | some key => do
    let decoded ← (host.decodeTo record.id key none).attempt
    match decoded with
    | .ok (sha, _) => pure (sha = record.original.sha256)
    | .error _ => pure false

def resolvePending (record : QuarantineRecord) : WindowsProg (ItemState × String) := do
  let present ← host.originalPresent record
  if present then do
    (VolumeCall.store (.removeItem (.data record.id))).ignored
    (VolumeCall.store (.removeItem (.dataTmp record.id))).ignored
    pure (.rolledBack, "interrupted before the original was removed; the copy was discarded")
  else do
    let verified ← host.copyVerified record
    if verified then do
      (VolumeCall.store (.removeItem (.dataTmp record.id))).ignored
      pure (.quarantined, "interrupted after the original was removed; the verified copy was kept")
    else
      pure (.failed, "original is gone and no verified copy exists; the file was removed by " ++
        "something other than the quarantine operation")

/-- Resolve one interrupted quarantine, and record and audit the outcome. -/
def recoverItem (now : Now) (store : QuarantineStore) (record : QuarantineRecord) : WindowsProg QuarantineStore := do
  let (outcome, detail) ← host.resolvePending record
  let record := { record with
    state := outcome
    updatedAt := now.1
    notes := record.notes ++ ["recovery: " ++ detail] }
  host.save record
  let store ← host.auditEvent store now "recover" (some record.id) (host.paths.nativePath record.original.path)
    (some record.original.sha256) (if outcome = .failed then .error detail else .ok (some detail))
  pure { store with recovered := store.recovered ++ [⟨record.id, outcome, detail⟩] }

/-- The record of a listed file, if it is one and still pending. -/
def collectPending (pending : List QuarantineRecord) (f : ItemFile) : WindowsProg (List QuarantineRecord) :=
  match f with
  | .json id => do
    let record ← host.get id
    pure (if record.state = .pending then pending ++ [record] else pending)
  | _ => pure pending

/-- Copies whose record was never written, and record temporaries. -/
def removeStray (_ : Unit) (f : ItemFile) : WindowsProg Unit :=
  match f with
  | .jsonTmp _ => (VolumeCall.store (.removeItem f)).ignored
  | .dataTmp id => do
    let record ← (host.get id).attempt
    match record with
    | .ok _ => pure ()
    | .error _ => (VolumeCall.store (.removeItem f)).ignored
  | _ => pure ()

def recover (store : QuarantineStore) (now : Now) : WindowsProg QuarantineStore := do
  let itemsPath := host.paths.join host.base.root (NativePath.ofString "items")
  let names ← (VolumeCall.store .listItems).orErr (.common <| .io "list" itemsPath ·)
  let pending ← Prog.forEach host.collectPending [] names
  let store ← Prog.forEach (host.recoverItem now) store pending
  let names ← (VolumeCall.store .listItems).orErr (.common <| .io "list" itemsPath ·)
  Prog.forEach host.removeStray () names
  pure store

/-- Open the store and replay any interrupted operations. -/
def openStore (now : Now) : WindowsProg QuarantineStore := do
  let refused (reason : String) := WindowsError.common (.storeInsecure host.auditPath
    ("audit log failed verification (" ++ reason ++ "); move it aside after investigating"))
  let log ← (VolumeCall.store .readAudit).orErr fun e => refused ("I/O error: " ++ e.text)
  let head ← Prog.ofExcept ((verifyChain host.base.sha256 host.base.entries log).mapError (refused ·.text))
  host.recover ⟨head, none, []⟩ now

end WindowsHost

end AbyssalWarden
