import AbyssalWarden.StoreEncoding

/-! The Linux quarantine store: the audit log and the records that its calls are made of. -/
namespace AbyssalWarden

/-- A quarantine store, opened and locked for exclusive use. -/
structure QuarantineStore where
  head : ChainHead
  onBehalfOf : Option String
  recovered : List RecoveryAction

variable (host : Host)

namespace Host

def auditPath : NativePath := host.root.join (NativePath.ofString "audit.log")

/-- Refuses symbolic links in every component of the path. -/
def openDirNoSymlinks (path : NativePath) : Except RemediationError DirStat :=
  match host.openDir path.components with
  | .ok st => .ok st
  | .error .loop | .error .xdev => .error (.symlinkInPath path)
  | .error .nosys => .error (.io "open (openat2 needs Linux 5.6 or later)" path .nosys)
  | .error e => .error (.io "open" path e)

def rejectStoreDir (dir : DirStat) (path : NativePath) : Except RemediationError Unit :=
  refuseIf ((dir.dev, dir.ino) = host.rootDir ∨ (dir.dev, dir.ino) = host.itemsDir) (.insideStore path)

/-- The entry of an event. `encode` sets its number and the hash of the line before it. -/
def auditEntry (store : QuarantineStore) (now : Now) (action : String) (id : Option QuarantineId)
    (path : Option NativePath) (sha256 : Option Sha256Digest)
    (outcome : Except String (Option String)) : AuditEntry where
  seq := 0
  time := now.1
  actorUid := host.euid
  actorSid := none
  onBehalfOf := store.onBehalfOf
  action := action
  item := id.map QuarantineId.text
  path := path.map ObservedPath.fromPath
  sha256 := sha256
  outcome := match outcome with
    | .ok _ => "ok"
    | .error _ => "error"
  detail := match outcome with
    | .ok detail => detail
    | .error e => some e
  prev := ""

/-- Append an entry to the log; the head is moved on when the line is on disk. -/
def appendEntry (store : QuarantineStore) (entry : AuditEntry) : StoreProg QuarantineStore := do
  let (line, head) ← Prog.ofExcept ((encode host.sha256 host.entries entry store.head).mapError .audit)
  (StoreCall.appendAudit line).orErr (.io "append" host.auditPath)
  StoreCall.syncAudit.orErr (.io "sync" host.auditPath)
  pure { store with head := head }

def auditEvent (store : QuarantineStore) (now : Now) (action : String) (id : Option QuarantineId)
    (path : Option NativePath) (sha256 : Option Sha256Digest)
    (outcome : Except String (Option String)) : StoreProg QuarantineStore :=
  host.appendEntry store (host.auditEntry store now action id path sha256 outcome)

/-- Atomically replace `items/<id>.json`: write a private temporary file, fsync it, rename it over the
target, fsync the directory. -/
def save (record : QuarantineRecord) : StoreProg Unit := do
  let path := host.itemPath (.json record.id)
  let data ← Prog.ofExcept ((host.records.toVecPretty record).mapError fun e =>
    .io "encode" path (.other e))
  (StoreCall.truncateItem (.jsonTmp record.id)).orErr (.io "create" path)
  (StoreCall.appendItem (.jsonTmp record.id) data).orErr (.io "write" path)
  (StoreCall.syncItem (.jsonTmp record.id)).orErr (.io "sync" path)
  (StoreCall.renameItem (.jsonTmp record.id) (.json record.id)).orErr (.io "rename" path)
  StoreCall.syncItems.orErr (.io "sync" path)

/-- What `get` makes of the bytes of a record. -/
def parseRecord (id : QuarantineId) (data : Bytes) : Except RemediationError QuarantineRecord := do
  refuseIf (data.length > maxRecordBytes) (.corrupt id "record too large")
  let record ← (host.records.fromSlice data).mapError fun e => .corrupt id ("invalid record: " ++ e)
  refuseIf (record.id ≠ id ∨ record.formatVersion ≠ recordFormatVersion)
    (.corrupt id "record ID or format version mismatch")
  .ok record

/-- Load one record. -/
def get (id : QuarantineId) : StoreProg QuarantineRecord := do
  let data ← (StoreCall.readItem (.json id)).orErr fun e =>
    if e = .noent then .unknownItem id else .io "open" (host.itemPath (.json id)) e
  Prog.ofExcept (host.parseRecord id data)

/-- Discard the copy and record that the original was not removed. -/
def rollBack (record : QuarantineRecord) (now : Now) (why : String) : StoreProg Unit := do
  (StoreCall.removeItem (.data record.id)).ignored
  StoreCall.syncItems.ignored
  host.save { record with
    state := .rolledBack
    updatedAt := now.1
    notes := record.notes ++ ["rolled back: " ++ why] }

end Host

end AbyssalWarden
