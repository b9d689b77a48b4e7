import AbyssalWarden.QuarantineStore

/-! What the users of the store ask for: quarantine, restore and delete. -/
namespace AbyssalWarden

structure ProcessUser where
  pid : ℕ
  name : String

/-- What one call gets from the system: random values, clock readings, the processes that use the file
with what pausing and killing them reports, and what a new file gets. -/
structure Draws where
  id : QuarantineId
  key : Key
  users : List ProcessUser
  pauseProblems : List String
  killProblems : List String
  dev : ℕ
  inode : ℕ
  gid : ℕ
  mtime : ℤ
  now : Now
  later : Now
  audited : Now

/-- What is noted about processes that were running the file. -/
def processNotes (req : QuarantineRequest) (d : Draws) : List String :=
  if d.users = [] then []
  else
    let list := ", ".intercalate (d.users.map fun p => "PID " ++ toString p.pid ++ " (" ++ p.name ++ ")")
    if req.killProcesses then
      ("killed process(es) running the file: " ++ list) :: (d.pauseProblems ++ d.killProblems)
    else
      ["still running from the quarantined file: " ++ list ++ " (not stopped; use " ++
        "--kill-processes to stop them)"]

variable (host : Host)

namespace Host

/-! ### Quarantine -/

/-- The path, the file and the checks before anything is copied. Returns its directory, its key and the
open file. -/
def openOriginal (req : QuarantineRequest) : StoreProg (NativePath × FileKey × FileNode) := do
  let path := req.path
  let (parent, name) ← Prog.ofExcept (splitChecked path)
  refuse (req.allowProtected = false ∧ path.isProtected = true) (.protectedPath path)
  refuse (path.startsWith host.root = true) (.insideStore path)
  let dir ← Prog.ofExcept ((host.openDirNoSymlinks parent).mapError fun e => match e with
    | .symlinkInPath _ => .symlinkInPath path
    | e => e)
  Prog.ofExcept (host.rejectStoreDir dir path)
  let key := parent.components ++ [name]
  let st ← (StoreCall.openFile key).orErr fun e =>
    if e = .loop then .symlinkInPath path else .io "open" path e
  -- the checks of the open file
  refuse (st.kind ≠ .regular) (.notRegularFile path)
  refuse (st.content.length > req.maxSize) (.tooLarge path req.maxSize)
  refuse (st.nlink > 1) (.hardLinked path st.nlink)
  pure (parent, key, st)

/-- Copy, verify and compare; the partial copy is removed on any error. -/
def copyOriginal (req : QuarantineRequest) (d : Draws) (st : FileNode) :
    StoreProg (Sha256Digest × ℕ) := do
  let (sha256, copied) ← (host.writeEncoded d.id st.content d.key.1 req.maxSize req.path).orCleanup
    (StoreCall.removeItem (.dataTmp d.id)).ignored
  match req.expectedSha256 with
  | none => pure (sha256, copied)
  | some expected =>
    if expected ≠ sha256 then do
      (StoreCall.removeItem (.dataTmp d.id)).ignored
      Prog.throw (.fileChanged req.path expected sha256)
    else pure (sha256, copied)

/-- The journal record of a copy. -/
def pendingRecord (req : QuarantineRequest) (d : Draws) (st : FileNode) (sha256 : Sha256Digest)
    (copied : ℕ) : QuarantineRecord where
  formatVersion := recordFormatVersion
  id := d.id
  state := .pending
  original :=
    { path := ObservedPath.fromPath req.path
      size := copied
      sha256 := sha256
      mode := st.mode % 0o10000
      uid := st.uid
      gid := st.gid
      dev := st.dev
      ino := st.ino
      ownerSid := none
      modified := OffsetDateTime.fromUnixTimestamp st.mtime }
  keyHex := String.ofList (hexEncode d.key.1)
  reason := req.reason
  actorUid := host.euid
  createdAt := d.now.1
  updatedAt := d.now.1
  restoredTo := none
  notes := []

/-- Remove the original, only if it is still the same file. -/
def removeOriginal (req : QuarantineRequest) (d : Draws) (record : QuarantineRecord) (key : FileKey) :
    StoreProg Unit := do
  let now ← (StoreCall.statFile key).result
  let stillSame := match now with
    | .ok (dev, ino) => dev = record.original.dev && ino = record.original.ino
    | .error _ => false
  if stillSame = false then do
    host.rollBack record d.later "the path no longer referred to the copied file"
    Prog.throw (.replaced req.path)
  else do
    let removed ← (StoreCall.removeFile key).result
    match removed with
    | .ok _ => pure ()
    | .error e => do
      host.rollBack record d.later ("removing the original failed: " ++ e.text)
      Prog.throw (.io "remove" req.path e)

def quarantineInner (store : QuarantineStore) (req : QuarantineRequest) (d : Draws) :
    StoreProg (QuarantineStore × QuarantineRecord) := do
  let (parent, key, st) ← host.openOriginal req
  -- steps 2 and 3: copy, verify, compare
  let (sha256, copied) ← host.copyOriginal req d st
  let record := host.pendingRecord req d st sha256 copied
  -- step 4: journal
  host.save record
  -- step 5: commit the copy
  (StoreCall.renameItem (.dataTmp d.id) (.data d.id)).orErr (.io "rename" (host.itemPath (.data d.id)))
  StoreCall.syncItems.orErr (.io "sync" host.root)
  -- step 6: remove the original, only if it is still the same file
  host.removeOriginal req d record key
  (StoreCall.syncDir parent.components).orErr (.io "sync" parent)
  -- step 7: finalise the record, and audit
  let record := { record with
    state := .quarantined
    updatedAt := d.later.1
    notes := record.notes ++ processNotes req d }
  host.save record
  let store ← host.auditEvent store d.audited "quarantine" (some d.id) (some req.path) (some sha256)
    (.ok none)
  pure (store, record)

/-- Quarantine one file. -/
def quarantine (store : QuarantineStore) (req : QuarantineRequest) (d : Draws) :
    Prog storeSystem Empty (QuarantineStore × Except RemediationError QuarantineRecord) := do
  let result ← (host.quarantineInner store req d).attempt
  match result with
  | .ok (store, record) => pure (store, .ok record)
  | .error e => do
    let audited ← (host.auditEvent store d.audited "quarantine" none (some req.path) req.expectedSha256
      (.error e.text)).attempt
    match audited with
    | .ok store => pure (store, .error e)
    | .error e => pure (store, .error e)

/-! ### Restore -/

/-- Where an item goes back to: its original directory, or the one asked for. -/
def restoreTarget (id : QuarantineId) (record : QuarantineRecord) (destDir : Option NativePath) :
    Except RemediationError (NativePath × Bytes × NativePath) := do
  match nativePath record.original.path with
  | none => .error (.corrupt id "original path cannot be reconstructed")
  | some original =>
    let (origParent, name) ← splitChecked original
    let targetDir ← match destDir with
      | some d => (splitChecked d).map fun (p, n) => p.join n
      | none => .ok origParent
    .ok (targetDir, name, targetDir.join name)

/-- The checks on the directory that an item is restored into. -/
def checkTargetDir (record : QuarantineRecord) (targetDir target : NativePath) :
    Except RemediationError Unit := do
  refuseIf (target.startsWith host.root = true) (.insideStore target)
  let dir ← (host.openDirNoSymlinks targetDir).mapError fun e => match e with
    | .io _ _ .noent => .unsafeTarget targetDir "the directory does not exist"
    | e => e
  host.rejectStoreDir dir target
  refuseIf (dir.mode &&& 0o022 ≠ 0)
    (.unsafeTarget targetDir "the directory is writable by group or others")
  refuseIf (¬ [0, host.euid, record.original.uid].contains dir.uid)
    (.unsafeTarget targetDir ("the directory is owned by uid " ++ toString dir.uid))

/-- The key of a record, if it has the right length. -/
def recordKey (record : QuarantineRecord) : Option Bytes :=
  (unhex record.keyHex.toList).filter fun key => key.length = keyLen

def restoreTmp (id : QuarantineId) : Bytes := NativePath.ofString (".aw-restore-" ++ id.text)

/-- Write the decoded content to the temporary file, checked against the recorded hash, and give it mode
and owner. -/
def writeRestored (id : QuarantineId) (record : QuarantineRecord) (key : Bytes) (tmp : FileKey)
    (target : NativePath) : StoreProg Unit := do
  let (sha, _) ← host.decodeTo id key (some tmp)
  refuse (sha ≠ record.original.sha256)
    (.corrupt id "decoded content does not match the recorded SHA-256")
  (StoreCall.chmodFile tmp (record.original.mode &&& 0o777)).orErr (.io "finalise" target)
  if host.euid = 0 then
    (StoreCall.chownFile tmp record.original.uid record.original.gid).orErr (.io "finalise" target)
  (StoreCall.syncFile tmp).orErr (.io "finalise" target)

/-- Put the temporary file under its name, which must be free. -/
def commitRestored (tmp key : FileKey) (target : NativePath) : StoreProg Unit := do
  let renamed ← (StoreCall.renameNew tmp key).result
  match renamed with
  | .ok _ => pure ()
  | .error .exist => do
    (StoreCall.removeFile tmp).ignored
    Prog.throw (.targetExists target)
  | .error .inval => do
    -- Filesystems without RENAME_NOREPLACE: link(2) also refuses to replace an existing name.
    let linked ← (StoreCall.linkFile tmp key).result
    (StoreCall.removeFile tmp).ignored
    match linked with
    | .ok _ => pure ()
    | .error .exist => Prog.throw (.targetExists target)
    | .error e => Prog.throw (.io "restore" target e)
  | .error e => do
    (StoreCall.removeFile tmp).ignored
    Prog.throw (.io "restore" target e)

/-- What is noted about a restored file. -/
def restoreNotes (record : QuarantineRecord) : List String :=
  (if record.original.mode &&& 0o6000 ≠ 0 then ["setuid/setgid bits were not restored"] else []) ++
    (if host.euid ≠ 0 ∧ record.original.uid ≠ host.euid then
      ["owner not restored (was uid " ++ toString record.original.uid ++ "; restoring as uid " ++
        toString host.euid ++ ")"]
    else [])

def restoreInner (id : QuarantineId) (destDir : Option NativePath) (d : Draws) :
    StoreProg NativePath := do
  let record ← host.get id
  -- only what is in the store can be restored
  refuse (record.state ≠ .quarantined) (.invalidState id record.state)
  let (targetDir, name, target) ← Prog.ofExcept (restoreTarget id record destDir)
  Prog.ofExcept (host.checkTargetDir record targetDir target)
  match recordKey record with
  | none => Prog.throw (.corrupt id "invalid key")
  | some key => do
    let dir := targetDir.components
    let tmp := dir ++ [restoreTmp id]
    -- a new file under a hidden name in the target directory
    (StoreCall.createFile tmp
      { kind := .regular, content := [], dev := d.dev, ino := d.inode, mode := 0o600,
        uid := host.euid, gid := d.gid, nlink := 1, mtime := d.mtime }).orErr
      (.io "create" (targetDir.join (restoreTmp id)))
    (host.writeRestored id record key tmp target).orCleanup (StoreCall.removeFile tmp).ignored
    commitRestored tmp (dir ++ [name]) target
    (StoreCall.syncDir dir).orErr (.io "sync" targetDir)
    -- the copy goes first, and then the record says so
    (StoreCall.removeItem (.data id)).orErr (.io "remove" (host.itemPath (.data id)))
    host.save { record with
      state := .restored
      updatedAt := d.later.1
      restoredTo := some (ObservedPath.fromPath target)
      notes := record.notes ++ host.restoreNotes record }
    pure target

/-- A call whose result is audited, and then returned unless the audit fails. -/
def audited {α : Type} (store : QuarantineStore) (inner : StoreProg α) (now : Now) (action : String)
    (id : QuarantineId) (detail : α → Option String) :
    Prog storeSystem Empty (QuarantineStore × Except RemediationError α) := do
  let result ← inner.attempt
  let audited ← (host.auditEvent store now action (some id) none none
    ((result.map detail).mapError RemediationError.text)).attempt
  match audited with
  | .ok store => pure (store, result)
  | .error e => pure (store, .error e)

/-- Restore an item to its original directory, or to `destDir`. -/
def restore (store : QuarantineStore) (id : QuarantineId) (destDir : Option NativePath) (d : Draws) :
    Prog storeSystem Empty (QuarantineStore × Except RemediationError NativePath) :=
  host.audited store (host.restoreInner id destDir d) d.audited "restore" id
    fun target => some ("restored to " ++ target.display)

/-! ### Delete -/

def deleteInner (id : QuarantineId) (d : Draws) : StoreProg Unit := do
  let record ← host.get id
  refuse (record.state ≠ .quarantined) (.invalidState id record.state)
  -- as in `restore`, the content goes before the record is saved
  let removed ← (StoreCall.removeItem (.data id)).result
  let notes ← match removed with
    | .ok _ => pure []
    | .error .noent => pure ["content was already missing"]
    | .error e => Prog.throw (.io "remove" (host.itemPath (.data id)) e)
  StoreCall.syncItems.orErr (.io "sync" host.root)
  host.save { record with
    state := .deleted
    updatedAt := d.later.1
    notes := record.notes ++ notes }

/-- Permanently delete a quarantined item's content. -/
def delete (store : QuarantineStore) (id : QuarantineId) (d : Draws) :
    Prog storeSystem Empty (QuarantineStore × Except RemediationError Unit) :=
  host.audited store (host.deleteInner id d) d.audited "delete" id fun _ => none

end Host

end AbyssalWarden
