import AbyssalWarden.Finding
import AbyssalWarden.Others
import AbyssalWarden.Protocol
import AbyssalWarden.QuarantineOpen

/-! The allow-list and the automatic quarantine policy, applied to a scan report. -/
namespace AbyssalWarden

/-! ### The allow-list -/

structure AllowEntry where
  sha256 : Sha256Digest
  addedAt : OffsetDateTime
  reason : String
  item : Option String
  detectionName : Option String

/-- The day a time is on, as it is displayed. -/
def OffsetDateTime.dateText (t : OffsetDateTime) : String :=
  let (year, month, day) := civilFromDays t.date.day
  padded 4 year ++ "-" ++ padded 2 month ++ "-" ++ padded 2 day

/-- The entry that a finding is allowed by. -/
def allowedBy (entries : List AllowEntry) (f : Finding) : Option AllowEntry :=
  f.target.sha256.bind fun sha => entries.find? (·.sha256 = sha)

def markFinding (entries : List AllowEntry) (f : Finding) : Finding :=
  match allowedBy entries f with
  | none => f
  | some e =>
    { f with
      remediationStatus := .allowed
      remediationDetail := some ("SHA-256 allow-listed on " ++ e.addedAt.dateText ++ " (" ++ e.reason ++ ")") }

/-- Marks findings whose file hash is allow-listed as `allowed`. Returns how many were marked. -/
def markAllowed (report : ScanReport) (entries : List AllowEntry) : ScanReport × ℕ :=
  ({ report with findings := report.findings.map (markFinding entries) },
    (report.findings.filter fun f => (allowedBy entries f).isSome).length)

/-! ### The policy -/

/-- The file and expected hash to quarantine automatically for `finding`, or why it is not eligible. -/
def autoQuarantineTarget (finding : Finding) : Except String (NativePath × Sha256Digest) := do
  refuseIf (finding.kind ≠ .knownIndicator ∨ finding.confidence ≠ .confirmed)
    "only confirmed known-indicator matches are remediated automatically"
  refuseIf (finding.category ≠ .malware) "only findings categorised as malware are remediated automatically"
  refuseIf (finding.recommendedAction ≠ .quarantine) "the detection does not recommend quarantine"
  let (path, sha256) ← match finding.target with
    | .file path (some sha256) _ => .ok (path, sha256)
    | .archiveMember _ _ _ _ =>
      .error ("the detection is inside an archive; review it and quarantine the archive " ++
        "manually if appropriate")
    | _ => .error "the finding does not identify a file by hash"
  let path ← match nativePath path with
    | some path => .ok path
    | none => .error "the file path could not be reconstructed"
  refuseIf (path.isProtected = true) "the file is under a protected system directory"
  .ok (path, sha256)

/-- The quarantine reason recorded for a finding. -/
def reasonFor (f : Finding) : QuarantineReason where
  findingId := some f.id.text
  detectionName := some f.name
  detector := some f.source.detector
  ruleId := f.source.ruleId
  databaseVersion := f.source.databaseVersion
  note := none

/-! ### The store among other processes -/

abbrev Files := FileKey → Option FileNode

/-- Another process changes files outside the store. -/
def changeFiles (g : Files → Files) (w : Disk) : Disk := { w with outside := g w.outside }

/-- Nothing comes between the check that a name still refers to the file that was copied and its removal. -/
def isRemoval : StoreCall → Bool
  | .removeFile _ => true
  | _ => false

abbrev sharedSystem := storeSystem.amid changeFiles isRemoval

/-- Everything may fail. -/
def anyFails (_ : StoreCall) : Bool := true

/-- What happens while the store is at work: to its calls, and to the files outside it. -/
structure Meanwhile where
  faults : List (Fault Errno)
  others : List (Files → Files)

namespace Prog

variable {ε α : Type}

def shared (p : Prog storeSystem ε α) : Prog sharedSystem ε α := p.amid changeFiles isRemoval

def runShared (p : Prog storeSystem ε α) (m : Meanwhile) (w : Disk) : Outcome ε α × Disk :=
  let (outcome, disk, _) := run (S := sharedSystem) anyFails p.shared m.faults (w, m.others)
  (outcome, disk)

end Prog

/-! ### The report -/

/-- What a quarantine call meets. -/
structure StoreTurn where
  draws : Draws
  meanwhile : Meanwhile

/-- A report on its way through `quarantine_report`: the store, if one was needed, the findings done so far, and the
errors to report. The process may be stopped in a call. -/
structure Remediation where
  store : Option (Except String QuarantineStore)
  disk : Disk
  findings : List Finding
  errors : List String
  stopped : Bool

/-- The settings of `quarantine_report`. -/
structure QuarantineOptions where
  maxSize : ℕ
  killProcesses : Bool

def quarantineRequest (opts : QuarantineOptions) (f : Finding) (path : NativePath) (sha256 : Sha256Digest) :
    QuarantineRequest where
  path := path
  expectedSha256 := some sha256
  reason := reasonFor f
  maxSize := opts.maxSize
  allowProtected := false
  killProcesses := opts.killProcesses

namespace Remediation

def done (s : Remediation) (f : Finding) (status : RemediationStatus) (detail : String) : Remediation :=
  { s with findings := s.findings ++ [{ f with remediationStatus := status, remediationDetail := some detail }] }

def fail (s : Remediation) (f : Finding) (e : String) : Remediation :=
  { s.done f .failed e with errors := s.errors ++ [e] }

end Remediation

/-- `quarantine ID`, and the notes of the record. -/
def quarantinedDetail (record : QuarantineRecord) : String :=
  record.notes.foldl (fun detail note => detail ++ "; " ++ note) ("quarantine ID " ++ record.id.text)

variable (host : Host)

namespace Host

/-- The loop of `quarantine_report`, for one finding. -/
def remediate (opts : QuarantineOptions) (s : Remediation) (f : Finding) (turn : StoreTurn) : Remediation :=
  if s.stopped then s
  else if f.remediationStatus = .allowed then { s with findings := s.findings ++ [f] }
  else
    match autoQuarantineTarget f with
    | .error why => s.done f .notEligible why
    | .ok (path, sha256) =>
      match s.store with
      | some (.ok store) =>
        match (host.quarantine store (quarantineRequest opts f path sha256) turn.draws).runShared turn.meanwhile
            s.disk with
        | (.ok (store, .ok record), disk) =>
          { s with store := some (.ok store), disk := disk }.done f .quarantined (quarantinedDetail record)
        | (.ok (store, .error e), disk) => { s with store := some (.ok store), disk := disk }.fail f e.text
        | (.error e, _) => e.elim
        | (.stopped, disk) => { s with disk := disk, stopped := true }
      | some (.error e) => s.fail f ("quarantine store unavailable: " ++ e)
      | none => s.fail f "quarantine store unavailable"

/-- The loop of `quarantine_report`; each finding comes with what its call would meet. -/
def remediateAll (opts : QuarantineOptions) (s : Remediation) (fs : List (Finding × StoreTurn)) : Remediation :=
  fs.foldl (fun s (f, turn) => host.remediate opts s f turn) s

/-- The store is opened. -/
def openForReport (now : Now) (m : Meanwhile) (w : Disk) : Remediation :=
  match (host.openStore now).runShared m w with
  | (.ok store, disk) => ⟨some (.ok store), disk, [], [], false⟩
  | (.error e, disk) => ⟨some (.error e.text), disk, [], [], false⟩
  | (.stopped, disk) => ⟨none, disk, [], [], true⟩

/-- Something is left for the automatic policy. -/
def anyEligible (report : ScanReport) : Bool :=
  report.findings.any fun f => f.remediationStatus ≠ .allowed && (autoQuarantineTarget f).isOk

def startRemediation (now : Now) (m : Meanwhile) (report : ScanReport) (w : Disk) : Remediation :=
  if anyEligible report then host.openForReport now m w else ⟨none, w, [], [], false⟩

/-- Quarantines every finding the automatic policy allows. The store is opened only if something is eligible; the
findings of the report are those of the result. -/
def quarantineReport (opts : QuarantineOptions) (now : Now) (m : Meanwhile) (turns : ℕ → StoreTurn)
    (report : ScanReport) (w : Disk) : Remediation :=
  host.remediateAll opts (host.startRemediation now m report w)
    (report.findings.mapIdx fun i f => (f, turns i))

end Host

end AbyssalWarden
