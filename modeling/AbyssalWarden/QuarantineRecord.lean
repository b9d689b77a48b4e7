import AbyssalWarden.Audit

/-! Quarantine item records, each the item's metadata and its journal entry, and the errors of the
store. -/
namespace AbyssalWarden

def isIdChar (c : Char) : Bool := c.isDigit || ('a' ≤ c && c ≤ 'f')

/-- Random 128-bit item ID, 32 lowercase hex characters. -/
structure QuarantineId where
  text : String
  valid : text.toList.length = 32 ∧ text.toList.all isIdChar = true
  deriving DecidableEq

/-- Lifecycle of an item: pending, then quarantined, then restored or deleted; or from pending to
rolled back or failed. -/
inductive ItemState where
  | pending
  | quarantined
  | restored
  | deleted
  | rolledBack
  | failed
  deriving DecidableEq

/-- What the file looked like when it was quarantined. -/
structure OriginalFile where
  path : ObservedPath
  size : ℕ
  sha256 : Sha256Digest
  mode : ℕ
  uid : ℕ
  gid : ℕ
  dev : ℕ
  ino : ℕ
  ownerSid : Option String
  modified : Option OffsetDateTime
  deriving DecidableEq

/-- Why the item was quarantined: the finding it came from, or a manual note. -/
structure QuarantineReason where
  findingId : Option String
  detectionName : Option String
  detector : Option String
  ruleId : Option String
  databaseVersion : Option String
  note : Option String
  deriving DecidableEq

structure QuarantineRecord where
  formatVersion : ℕ
  id : QuarantineId
  state : ItemState
  original : OriginalFile
  keyHex : String
  reason : QuarantineReason
  actorUid : ℕ
  createdAt : OffsetDateTime
  updatedAt : OffsetDateTime
  restoredTo : Option ObservedPath
  notes : List String
  deriving DecidableEq

def recordFormatVersion : ℕ := 1
def maxRecordBytes : ℕ := 1024 * 1024

/-- The times of the record can be written. -/
def QuarantineRecord.Writable (record : QuarantineRecord) : Prop :=
  record.createdAt.Rfc3339 ∧ record.updatedAt.Rfc3339 ∧ ∀ t ∈ record.original.modified, t.Rfc3339

/-- Pretty JSON: only a time it cannot write is an error, and what was written is read back. -/
structure RecordCodec where
  toVecPretty : QuarantineRecord → Except String Bytes
  fromSlice : Bytes → Except String QuarantineRecord
  toVecPretty_writable : ∀ record, record.Writable ↔ ∃ data, toVecPretty record = .ok data
  fromSlice_toVecPretty : ∀ record data, toVecPretty record = .ok data → fromSlice data = .ok record

/-! ### A codec -/

instance (t : OffsetDateTime) : Decidable t.Rfc3339 := inferInstanceAs (Decidable (_ ≤ _))

instance (record : QuarantineRecord) : Decidable record.Writable :=
  inferInstanceAs (Decidable (_ ∧ _ ∧ _))

instance encodableUInt8 : Encodable UInt8 :=
  Encodable.ofLeftInverse UInt8.toNat UInt8.ofNat fun _ => UInt8.ofNat_toNat

instance encodableChar : Encodable Char :=
  Encodable.ofLeftInverse Char.toNat Char.ofNat Char.ofNat_toNat

instance encodableString : Encodable String :=
  Encodable.ofLeftInverse String.toList String.ofList fun _ => String.ofList_toList

instance : Encodable Sha256Digest :=
  Encodable.ofLeftInjection Sha256Digest.bytes (fun b => if h : b.length = 32 then some ⟨b, h⟩ else none)
    fun digest => dif_pos digest.length_eq

instance : Encodable OffsetDateTime :=
  Encodable.ofLeftInjection OffsetDateTime.nanos
    (fun n => if h : -4371587 * nanosPerDay ≤ n ∧ n < 2932897 * nanosPerDay then some ⟨n, h⟩ else none)
    fun t => dif_pos t.in_range

instance : Encodable QuarantineId :=
  Encodable.ofLeftInjection QuarantineId.text
    (fun s => if h : s.toList.length = 32 ∧ s.toList.all isIdChar = true then some ⟨s, h⟩ else none)
    fun id => dif_pos id.valid

deriving instance Encodable for ObservedPath, ItemState, QuarantineReason

deriving instance Encodable for OriginalFile

deriving instance Encodable for QuarantineRecord

/-- A codec that knows the text of some records, and counts blanks for any other. -/
def RecordCodec.ofTable (table : List (QuarantineRecord × Bytes)) (hnodup : (table.map Prod.snd).Nodup)
    (hwritable : ∀ p ∈ table, p.1.Writable) (hbrace : ∀ p ∈ table, p.2.head? = some 0x7B) :
    RecordCodec where
  toVecPretty record := match table.find? (·.1 = record) with
    | some p => .ok p.2
    | none =>
      if record.Writable then .ok (List.replicate (Encodable.encode record) 0x20)
      else .error "cannot format the time"
  fromSlice data := match table.find? (·.2 = data) with
    | some p => .ok p.1
    | none => match Encodable.decode data.length with
      | some record => .ok record
      | none => .error "unknown record"
  toVecPretty_writable record := by
    cases hfind : table.find? (·.1 = record) with
    | none => by_cases hw : record.Writable <;> simp [hw]
    | some p =>
      have hrecord : p.1 = record := by simpa using List.find?_some hfind
      simpa [← hrecord] using hwritable p (List.mem_of_find?_eq_some hfind)
  fromSlice_toVecPretty record data h := by
    cases hfind : table.find? (·.1 = record) with
    | some p =>
      obtain rfl : p.2 = data := by simpa [hfind] using h
      have hrecord : p.1 = record := by simpa using List.find?_some hfind
      simp [find_snd_of_find_fst hnodup hfind, hrecord]
    | none =>
      have hdata : List.replicate (Encodable.encode record) 0x20 = data := by
        by_cases hw : record.Writable
        · simpa [hfind, hw] using h
        · simp [hfind, hw] at h
      have hback : table.find? (·.2 = data) = none := by
        rw [List.find?_eq_none]
        intro p hp heq
        have hhead := hbrace p hp
        rw [of_decide_eq_true heq, ← hdata, List.head?_replicate] at hhead
        split at hhead <;> simp at hhead
      rw [hback, ← hdata, List.length_replicate, Encodable.encodek]

/-- A request to quarantine one file. -/
structure QuarantineRequest where
  path : NativePath
  expectedSha256 : Option Sha256Digest
  reason : QuarantineReason
  maxSize : ℕ
  allowProtected : Bool
  killProcesses : Bool

/-- What recovery did with an operation that was interrupted. -/
structure RecoveryAction where
  id : QuarantineId
  outcome : ItemState
  detail : String

/-! ### Errors -/

inductive Errno where
  | noent
  | exist
  | loop
  | xdev
  | inval
  | nosys
  | other (text : String)
  deriving DecidableEq

def Errno.text : Errno → String
  | .noent => "No such file or directory (os error 2)"
  | .exist => "File exists (os error 17)"
  | .loop => "Too many levels of symbolic links (os error 40)"
  | .xdev => "Invalid cross-device link (os error 18)"
  | .inval => "Invalid argument (os error 22)"
  | .nosys => "Function not implemented (os error 38)"
  | .other text => text

inductive RemediationError where
  | invalidPath (path : NativePath)
  | symlinkInPath (path : NativePath)
  | protectedPath (path : NativePath)
  | insideStore (path : NativePath)
  | notRegularFile (path : NativePath)
  | tooLarge (path : NativePath) (limit : ℕ)
  | hardLinked (path : NativePath) (links : ℕ)
  | fileChanged (path : NativePath) (expected actual : Sha256Digest)
  | replaced (path : NativePath)
  | storeInsecure (path : NativePath) (reason : String)
  | unknownItem (id : QuarantineId)
  | invalidState (id : QuarantineId) (state : ItemState)
  | targetExists (path : NativePath)
  | unsafeTarget (path : NativePath) (reason : String)
  | corrupt (id : QuarantineId) (reason : String)
  | io (op : String) (path : NativePath) (source : Errno)
  | audit (e : AuditError)

def ItemState.debug : ItemState → String
  | .pending => "Pending"
  | .quarantined => "Quarantined"
  | .restored => "Restored"
  | .deleted => "Deleted"
  | .rolledBack => "RolledBack"
  | .failed => "Failed"

def Sha256Digest.toHex (digest : Sha256Digest) : String := String.ofList (hexEncode digest.bytes)

def BrokenReason.text : BrokenReason → String
  | .incomplete => "incomplete or over-long line"
  | .notAnEntry e => "not a valid entry: " ++ e
  | .sequence found expected =>
    "sequence " ++ toString found ++ " where " ++ toString expected ++ " expected"
  | .mismatch => "hash chain mismatch (a previous line was altered or removed)"

def AuditError.text : AuditError → String
  | .broken line reason => "line " ++ toString line ++ ": " ++ reason.text
  | .serialize e => "cannot serialise entry: " ++ e

/-- What the audit log and the user are told. -/
def RemediationError.text : RemediationError → String
  | .invalidPath path => "path must be absolute and must not contain `..`: " ++ path.display
  | .symlinkInPath path => path.display ++
    " contains a symbolic link (or is not reachable without one); use the fully resolved path"
  | .protectedPath path => path.display ++
    " is under a protected system directory; refusing without explicit override"
  | .insideStore path => path.display ++ " is inside the quarantine store"
  | .notRegularFile path => path.display ++ " is not a regular file"
  | .tooLarge path limit => path.display ++ " is larger than the " ++ toString limit ++ "-byte limit"
  | .hardLinked path links => path.display ++ " has " ++ toString links ++
    " hard links; quarantining one name would leave the content reachable through the others"
  | .fileChanged path expected actual => path.display ++ " changed: expected SHA-256 " ++
    expected.toHex ++ ", found " ++ actual.toHex ++ "; nothing was modified"
  | .replaced path => path.display ++
    " was replaced while it was being quarantined; nothing was removed"
  | .storeInsecure path reason => "quarantine store " ++ path.display ++ " is unsafe: " ++ reason
  | .unknownItem id => "no quarantined item " ++ id.text
  | .invalidState id state => "item " ++ id.text ++ " is " ++ state.debug ++
    "; this operation needs it to be quarantined"
  | .targetExists path => path.display ++ " already exists; restore never overwrites"
  | .unsafeTarget path reason => "cannot restore into " ++ path.display ++ ": " ++ reason
  | .corrupt id reason => "quarantine data for " ++ id.text ++ " is corrupt: " ++ reason
  | .io op path source => op ++ " " ++ path.display ++ ": " ++ source.text
  | .audit e => "audit log: " ++ e.text

/-- Split an absolute path into parent and final component, rejecting `..` and paths without a final
normal component. -/
def splitChecked (path : NativePath) : Except RemediationError (NativePath × Bytes) := do
  refuseIf (path.isAbsolute = false ∨ [NativePath.dot, NativePath.dot] ∈ path.components)
    (.invalidPath path)
  match path.components.getLast? with
  | none => .error (.invalidPath path)
  | some name => .ok (path.parent, name)

end AbyssalWarden
