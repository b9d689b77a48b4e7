import AbyssalWarden.QuarantineCalls

/-! Opening the store: the audit log is verified, and what was interrupted is resolved. -/
namespace AbyssalWarden

variable (host : Host)

namespace Host

/-- Where the original of a record would be, if its directory can be opened. -/
def originalKey (record : QuarantineRecord) : Option FileKey :=
  match nativePath record.original.path with
  | none => none
  | some path =>
    match splitChecked path with
    | .error _ => none
    | .ok (parent, name) =>
      match host.openDirNoSymlinks parent with
      | .error _ => none
      | .ok _ => some (parent.components ++ [name])

/-- The name of the original still refers to the file that was recorded. -/
def originalPresent (record : QuarantineRecord) : StoreProg Bool :=
  match host.originalKey record with
  | none => pure false
  | some key => do
    let st ← (StoreCall.statFile key).result
    match st with
    | .ok (dev, ino) => pure (dev = record.original.dev && ino = record.original.ino)
    | .error _ => pure false

/-- The copy decodes to what was recorded. -/
def copyVerified (record : QuarantineRecord) : StoreProg Bool :=
  match recordKey record with
  | none => pure false
  | some key => do
    let decoded ← (host.decodeTo record.id key none).attempt
    match decoded with
    | .ok (sha, _) => pure (sha = record.original.sha256)
    | .error _ => pure false

def resolvePending (record : QuarantineRecord) : StoreProg (ItemState × String) := do
  let present ← host.originalPresent record
  -- the original was not removed yet, so the copy is not needed
  if present then do
    (StoreCall.removeItem (.data record.id)).ignored
    (StoreCall.removeItem (.dataTmp record.id)).ignored
    StoreCall.syncItems.ignored
    pure (.rolledBack, "interrupted before the original was removed; the copy was discarded")
  else do
    let verified ← host.copyVerified record
    -- the original is gone: what counts is whether the copy is whole
    if verified then do
      (StoreCall.removeItem (.dataTmp record.id)).ignored
      pure (.quarantined, "interrupted after the original was removed; the verified copy was kept")
    else
      pure (.failed, "original is gone and no verified copy exists; the file was removed by " ++
        "something other than the quarantine operation")

/-- Resolve one interrupted quarantine, and record and audit the outcome. -/
def recoverItem (now : Now) (store : QuarantineStore) (record : QuarantineRecord) :
    StoreProg QuarantineStore := do
  let (outcome, detail) ← host.resolvePending record
  let record := { record with
    state := outcome
    updatedAt := now.1
    notes := record.notes ++ ["recovery: " ++ detail] }
  host.save record
  let store ← host.auditEvent store now "recover" (some record.id) (nativePath record.original.path)
    (some record.original.sha256) (if outcome = .failed then .error detail else .ok (some detail))
  pure { store with recovered := store.recovered ++ [⟨record.id, outcome, detail⟩] }

/-- The record of a listed file, if it is one and still pending. -/
def collectPending (pending : List QuarantineRecord) (f : ItemFile) :
    StoreProg (List QuarantineRecord) :=
  match f with
  | .json id => do
    let record ← host.get id
    pure (if record.state = .pending then pending ++ [record] else pending)
  | _ => pure pending

/-- Copies whose record was never written, and record temporaries. -/
def removeStray (_ : Unit) (f : ItemFile) : StoreProg Unit :=
  match f with
  | .jsonTmp _ => (StoreCall.removeItem f).ignored
  | .dataTmp id => do
    let record ← (host.get id).attempt
    match record with
    | .ok _ => pure ()
    | .error _ => (StoreCall.removeItem f).ignored
  | _ => pure ()

/-- Replay interrupted operations. -/
def recover (store : QuarantineStore) (now : Now) : StoreProg QuarantineStore := do
  let itemsPath := host.root.join (NativePath.ofString "items")
  -- all records are read first, and then the pending ones are resolved
  let names ← StoreCall.listItems.orErr (.io "list" itemsPath)
  let pending ← Prog.forEach host.collectPending [] names
  let store ← Prog.forEach (host.recoverItem now) store pending
  -- stray temporaries: copies whose record was never written, and record temporaries
  let names ← StoreCall.listItems.orErr (.io "list" itemsPath)
  Prog.forEach host.removeStray () names
  pure store

/-- Open the store and replay any interrupted operations. -/
def openStore (now : Now) : StoreProg QuarantineStore := do
  let refused (reason : String) := RemediationError.storeInsecure host.auditPath
    ("audit log failed verification (" ++ reason ++ "); move it aside after investigating")
  -- a log whose chain is broken keeps the store closed
  let log ← StoreCall.readAudit.orErr fun e => refused ("I/O error: " ++ e.text)
  let head ← Prog.ofExcept ((verifyChain host.sha256 host.entries log).mapError (refused ·.text))
  host.recover ⟨head, none, []⟩ now

end Host

end AbyssalWarden
