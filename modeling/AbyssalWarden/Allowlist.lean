import AbyssalWarden.Embedding
import AbyssalWarden.FaultFree
import AbyssalWarden.Remediation

/-! The allow-list of exact file contents the user has decided to keep, in `allowlist.json` of the store. -/
namespace AbyssalWarden

def maxAllowlistBytes : ℕ := 4 * 1024 * 1024

/-- Most entries kept; adding beyond this fails rather than growing without bound. -/
def maxAllowEntries : ℕ := 10000

deriving instance DecidableEq for AllowEntry

structure AllowlistFile where
  formatVersion : ℕ
  entries : List AllowEntry
  deriving DecidableEq

/-- The times of the entries can be written. -/
def AllowlistFile.Writable (file : AllowlistFile) : Prop := ∀ e ∈ file.entries, e.addedAt.Rfc3339

/-- Pretty JSON: only a time it cannot write is an error, and what was written is read back. -/
structure AllowlistCodec where
  toVecPretty : AllowlistFile → Except String Bytes
  fromSlice : Bytes → Except String AllowlistFile
  toVecPretty_writable : ∀ file, file.Writable → ∃ data, toVecPretty file = .ok data
  fromSlice_toVecPretty : ∀ file data, toVecPretty file = .ok data → fromSlice data = .ok file

/-! ### The directory of the store -/

/-- The directory of the store: the allow-list, its temporary file, and the rest. -/
structure StoreRoot where
  list : Option Bytes
  listTmp : Option Bytes
  disk : Disk

inductive RootCall where
  | statList
  | openList
  | readList
  | truncateTmp
  | appendTmp (data : Bytes)
  | syncTmp
  | renameTmp
  | syncRoot
  | store (c : StoreCall)

/-- Whether there is a list is an answer, not an error. -/
abbrev RootAnswer : RootCall → Type
  | .statList | .openList => Bool
  | .readList => Bytes
  | .store c => StoreAnswer c
  | _ => Unit

namespace StoreRoot

/-- `renameat` -/
def renameTmp (r : StoreRoot) : Except Errno Unit × StoreRoot :=
  match r.listTmp with
  | none => (.error .noent, r)
  | some data => (.ok (), { r with list := some data, listTmp := none })

def apply (r : StoreRoot) : (c : RootCall) → Except Errno (RootAnswer c) × StoreRoot
  | .statList => (.ok r.list.isSome, r)
  | .openList => (.ok r.list.isSome, r)
  | .readList => (r.list.elim (.error .noent) .ok, r)
  | .truncateTmp => (.ok (), { r with listTmp := some [] })
  | .appendTmp data => (.ok (), { r with listTmp := r.listTmp.map (· ++ data) })
  | .syncTmp => (.ok (), r)
  | .renameTmp => r.renameTmp
  | .syncRoot => (.ok (), r)
  | .store c => ((r.disk.apply c).1, { r with disk := (r.disk.apply c).2 })

/-- A write may leave a part of its data; any other call takes place or not. -/
def torn (r : StoreRoot) (n : ℕ) : RootCall → StoreRoot
  | .appendTmp data => { r with listTmp := r.listTmp.map (· ++ data.take n) }
  | .store c => { r with disk := r.disk.torn n c }
  | c => if n = 0 then r else (r.apply c).2

/-- A write that fails may have written a part of its data; any other call that fails does nothing. -/
def failed (r : StoreRoot) (n : ℕ) : RootCall → StoreRoot
  | .appendTmp data => { r with listTmp := r.listTmp.map (· ++ data.take n) }
  | .store c => { r with disk := r.disk.failed n c }
  | _ => r

end StoreRoot

/-- The calls that are made in the directory of the store. -/
abbrev rootSystem : System StoreRoot Errno where
  Call := RootCall
  Answer := RootAnswer
  apply c r := r.apply c
  torn c n r := r.torn n c
  failed c n r := r.failed n c

abbrev RootProg := Prog rootSystem RemediationError

namespace RootCall

/-- The call, its error worded by `onError`. -/
abbrev orErr (c : RootCall) (onError : Errno → RemediationError) : RootProg (RootAnswer c) :=
  Prog.request (S := rootSystem) c onError

end RootCall

/-- The items and the audit log are a part of the directory. -/
def diskPart : Part storeSystem rootSystem where
  call := .store
  answer _ := id
  view := StoreRoot.disk
  apply_answer c r := by
    change (r.disk.apply c).1.map id = (r.disk.apply c).1
    cases (r.disk.apply c).1 <;> rfl
  apply_view _ _ := rfl
  torn_view _ _ _ := rfl
  failed_view _ _ _ := rfl

/-- The calls of the store, made in its directory. -/
def Prog.inRoot {ε α : Type} (p : Prog storeSystem ε α) : Prog rootSystem ε α := p.within diskPart id

variable (host : Host) (codec : AllowlistCodec)

namespace Host

def allowlistPath : NativePath := host.root.join (NativePath.ofString "allowlist.json")

/-! ### Reading -/

def parseAllowlist (data : Bytes) : Except RemediationError AllowlistFile := do
  let corrupt (reason : String) := RemediationError.storeInsecure host.allowlistPath
    ("allow-list is unreadable (" ++ reason ++ ")")
  let file ← (codec.fromSlice data).mapError corrupt
  refuseIf (file.formatVersion ≠ 1) (corrupt "unsupported format_version")
  .ok file

/-- The check of the size of a list that was read, and its parsing. -/
def checkAllowlist (data : Bytes) : Except RemediationError AllowlistFile := do
  refuseIf (data.length > maxAllowlistBytes) (.storeInsecure host.allowlistPath "the allow-list is too large")
  host.parseAllowlist codec data

def readAllowlistFile : RootProg AllowlistFile := do
  let present ← RootCall.openList.orErr (.io "open" host.allowlistPath)
  if present then do
    let data ← RootCall.readList.orErr (.io "read" host.allowlistPath)
    Prog.ofExcept (host.checkAllowlist codec data)
  else pure ⟨1, []⟩

/-- The allow-list of an open store. -/
def allowlist : RootProg (List AllowEntry) := do
  let file ← host.readAllowlistFile codec
  pure file.entries

/-- Read the allow-list of a store without opening it. -/
def readAllowlist : RootProg (List AllowEntry) := do
  let present ← RootCall.statList.orErr (.io "stat" host.allowlistPath)
  if present then do
    let _ ← RootCall.openList.orErr (.io "open" host.allowlistPath)
    let data ← RootCall.readList.orErr (.io "read" host.allowlistPath)
    let file ← Prog.ofExcept (host.checkAllowlist codec data)
    pure file.entries
  else pure []

/-! ### Writing -/

/-- Write a private temporary file, fsync it, rename it over the list, fsync the directory. -/
def writeAllowlistFile (file : AllowlistFile) : RootProg Unit := do
  let path := host.allowlistPath
  let data ← Prog.ofExcept ((codec.toVecPretty file).mapError fun e => .io "encode" path (.other e))
  RootCall.truncateTmp.orErr (.io "create" path)
  (RootCall.appendTmp data).orErr (.io "write" path)
  RootCall.syncTmp.orErr (.io "sync" path)
  RootCall.renameTmp.orErr (.io "rename" path)
  RootCall.syncRoot.orErr (.io "sync" path)

/-- Add `sha256` to the allow-list (no-op if present). Audit-logged. -/
def allow (store : QuarantineStore) (sha256 : Sha256Digest) (reason : String) (item : Option QuarantineId)
    (detectionName : Option String) (now audited : Now) : RootProg QuarantineStore := do
  let file ← host.readAllowlistFile codec
  if file.entries.any (·.sha256 = sha256) then
    (host.auditEvent store audited "allow" item none (some sha256) (.ok (some reason))).inRoot
  else do
    Prog.ofExcept (refuseIf (file.entries.length ≥ maxAllowEntries)
      (.storeInsecure host.allowlistPath ("the allow-list is full (" ++ toString maxAllowEntries ++ " entries)")))
    host.writeAllowlistFile codec { file with
      entries := file.entries ++ [⟨sha256, now.1, reason, item.map QuarantineId.text, detectionName⟩] }
    (host.auditEvent store audited "allow" item none (some sha256) (.ok (some reason))).inRoot

/-- Remove `sha256` from the allow-list. Returns whether it was present. -/
def disallow (store : QuarantineStore) (sha256 : Sha256Digest) (audited : Now) :
    RootProg (QuarantineStore × Bool) := do
  let file ← host.readAllowlistFile codec
  let entries := file.entries.filter (·.sha256 ≠ sha256)
  if entries.length ≠ file.entries.length then do
    host.writeAllowlistFile codec { file with entries := entries }
    let store ← (host.auditEvent store audited "disallow" none none (some sha256) (.ok none)).inRoot
    pure (store, true)
  else pure (store, false)

end Host

/-! ### Runs -/

inductive AllowOp where
  | allow (sha256 : Sha256Digest) (reason : String) (item : Option QuarantineId) (detectionName : Option String)
      (now audited : Now)
  | disallow (sha256 : Sha256Digest) (audited : Now)

/-- The hash that is named. -/
def AllowOp.sha256 : AllowOp → Sha256Digest
  | allow sha256 _ _ _ _ _ => sha256
  | disallow sha256 _ => sha256

/-- How a call ended: it returned Ok, or refused before it wrote anything, or was cut off. -/
inductive CallEnd where
  | ok
  | refused
  | interrupted
  deriving DecidableEq

/-- The store's directory, and the store if it is open. -/
structure AllowSession where
  root : StoreRoot
  store : Option QuarantineStore

/-- No allow-list was ever written. -/
def AllowSession.Fresh (s : AllowSession) : Prop := s.root.list = none

inductive AllowEvent where
  | reopened (store : QuarantineStore) (disk : Disk)
  | call (op : AllowOp) (faults : List (Fault Errno))

/-- How a call ended, by its outcome. -/
def callEnd {α : Type} : Outcome RemediationError α → CallEnd
  | .ok _ => .ok
  | .error (.storeInsecure _ _) => .refused
  | _ => .interrupted

namespace Host

/-- A call on an open store. -/
def allowOp (store : QuarantineStore) : AllowOp → RootProg QuarantineStore
  | .allow sha256 reason item detectionName now audited =>
    host.allow codec store sha256 reason item detectionName now audited
  | .disallow sha256 audited => do
    let (store, _) ← host.disallow codec store sha256 audited
    pure store

/-- What a call leaves, and how it ended. A process that is stopped leaves the store closed. -/
def allowCall (mayFail : RootCall → Bool) (root : StoreRoot) (store : QuarantineStore) (op : AllowOp)
    (faults : List (Fault Errno)) : AllowSession × CallEnd :=
  match (host.allowOp codec store op).run mayFail faults root with
  | (.ok store', root') => (⟨root', some store'⟩, .ok)
  | (.error e, root') => (⟨root', some store⟩, callEnd (α := Unit) (.error e))
  | (.stopped, root') => (⟨root', none⟩, .interrupted)

/-- A session, and the calls that were made in it. Opening the store does not touch the allow-list. -/
def allowStep (mayFail : RootCall → Bool) (s : AllowSession × List (AllowOp × CallEnd)) :
    AllowEvent → AllowSession × List (AllowOp × CallEnd)
  | .reopened store disk => (⟨{ s.1.root with disk := disk }, some store⟩, s.2)
  | .call op faults =>
    match s.1.store with
    | none => s
    | some store =>
      ((host.allowCall codec mayFail s.1.root store op faults).1,
        s.2 ++ [(op, (host.allowCall codec mayFail s.1.root store op faults).2)])

def allowRun (mayFail : RootCall → Bool) (s : AllowSession) (evs : List AllowEvent) :
    AllowSession × List (AllowOp × CallEnd) :=
  evs.foldl (host.allowStep codec mayFail) (s, [])

end Host

end AbyssalWarden
