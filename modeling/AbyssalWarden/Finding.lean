import AbyssalWarden.Archive
import AbyssalWarden.GrowingMap
import AbyssalWarden.Jobs

/-! What detectors and scans report: findings with their targets, skipped entries, issues and the report. -/
namespace AbyssalWarden

inductive FindingKind where
  | knownIndicator
  | suspicious
  | heuristic
  | informational
  deriving DecidableEq

inductive Severity where
  | info
  | low
  | medium
  | high
  | critical
  deriving DecidableEq

inductive Confidence where
  | low
  | medium
  | high
  | confirmed
  deriving DecidableEq

inductive ThreatCategory where
  | malware
  | potentiallyUnwanted
  | testIndicator
  | unknown
  deriving DecidableEq

inductive RecommendedAction where
  | none
  | review
  | quarantine
  deriving DecidableEq

/-- State of remediation for a finding. Detectors always produce `notAttempted`. -/
inductive RemediationStatus where
  | notAttempted
  | quarantined
  | notEligible
  | failed
  | allowed
  deriving DecidableEq

structure DetectionSource where
  detector : String
  detectorVersion : String
  ruleId : Option String
  ruleVersion : Option ℕ
  databaseName : Option String
  databaseVersion : Option String
  deriving DecidableEq

inductive EvidenceKind where
  | exactSha256Match
  | yaraRuleMatch
  | suspiciousCommand
  | suspiciousLocation
  | insecurePermissions
  | crossViewMismatch
  | kernelTaint
  | packageVerification
  | deletedExecutable
  | detectedContent
  | persistenceEntry
  | heuristic
  deriving DecidableEq

structure Evidence where
  kind : EvidenceKind
  summary : String
  deriving DecidableEq

/-- File metadata captured from the opened file handle. -/
structure FileMetadata where
  size : ℕ
  modified : Option OffsetDateTime
  unixMode : Option ℕ
  deriving DecidableEq

inductive PersistenceMechanism where
  | systemdService
  | systemdTimer
  | cron
  | ldPreload
  | shellProfile
  | environment
  | xdgAutostart
  | sshAuthorizedKeys
  | pam
  | rcLocal
  | udev
  | sysvInit
  | atJob
  | systemdGenerator
  | kernelModule
  | motd
  | sshRc
  | initramfsHook
  | bootLoader
  | ebpf
  | registryRun
  | windowsService
  | scheduledTask
  | startupFolder
  | winlogon
  deriving DecidableEq

/-- The object a finding is about. -/
inductive FindingTarget where
  | file (path : ObservedPath) (sha256 : Option Sha256Digest) (metadata : Option FileMetadata)
  | archiveMember (archive : ObservedPath) (member : List ObservedPath) (sha256 : Option Sha256Digest) (size : ℕ)
  | persistence (mechanism : PersistenceMechanism) (location : ObservedPath) (entry : Option String)
  | process (pid : ℕ) (name : String) (exe : Option ObservedPath)
  | system (component : String)
  deriving DecidableEq

namespace FindingTarget

/-- The file on disk the finding concerns (the archive, for members). -/
def path : FindingTarget → Option ObservedPath
  | persistence _ location _ => some location
  | process _ _ exe => exe
  | system _ => none
  | file path _ _ => some path
  | archiveMember archive _ _ _ => some archive

def sha256 : FindingTarget → Option Sha256Digest
  | file _ sha256 _ => sha256
  | archiveMember _ _ sha256 _ => sha256
  | persistence _ _ _ => none
  | process _ _ _ => none
  | system _ => none

end FindingTarget

/-- A single explainable detection result. -/
structure Finding where
  id : Uuid
  kind : FindingKind
  name : String
  severity : Severity
  confidence : Confidence
  category : ThreatCategory
  target : FindingTarget
  source : DetectionSource
  evidence : List Evidence
  explanation : String
  recommendedAction : RecommendedAction
  remediationGuidance : Option String
  remediationStatus : RemediationStatus
  remediationDetail : Option String
  detectedAt : OffsetDateTime
  deriving DecidableEq

structure SkippedEntry where
  path : ObservedPath
  reason : SkipReason
  member : Option (List ObservedPath)
  deriving DecidableEq

inductive IssueKind where
  | permissionDenied
  | notFound
  | filesystemLoop
  | io
  | detectorFailed
  | timeout
  | archiveError
  | locked
  deriving DecidableEq

structure ScanIssue where
  path : Option ObservedPath
  kind : IssueKind
  detector : Option String
  message : String
  member : Option (List ObservedPath)
  deriving DecidableEq

/-! ### The order of entries -/

/-- `Option` as the derived order has it: nothing comes first. -/
def orBot {α : Type} : Option α → WithBot α
  | none => ⊥
  | some a => a

theorem orBot_injective {α : Type} : Function.Injective (orBot : Option α → WithBot α) := by
  intro a b h
  cases a with
  | none =>
    cases b with
    | none => rfl
    | some b => exact absurd h.symm (WithBot.coe_ne_bot)
  | some a =>
    cases b with
    | none => exact absurd h (WithBot.coe_ne_bot)
    | some b => exact congrArg some (WithBot.coe_injective h)

/-- Recorded paths are ordered by their text, then by their native bytes. -/
instance : LinearOrder ObservedPath :=
  LinearOrder.lift' (fun p => toLex (p.text, orBot p.rawHex)) fun a b h => by
    obtain ⟨htext, hraw⟩ := Prod.mk.inj (toLex.injective h)
    cases a
    cases b
    simp only [ObservedPath.mk.injEq]
    exact ⟨htext, orBot_injective hraw⟩

/-- `SkipReason` in the order it is declared in. -/
def SkipReason.rank : SkipReason → ℕ
  | symlinkNotFollowed => 0
  | notRegularFile => 1
  | exceedsMaxFileSize => 2
  | excluded => 3
  | depthLimitReached => 4
  | duplicateFile => 5
  | archiveTooLarge => 6
  | archiveLimitReached => 7
  | archiveMemberEncrypted => 8
  | archiveMemberUnsupported => 9
  | contentNotInspected => 10

instance : LinearOrder SkipReason :=
  LinearOrder.lift' SkipReason.rank fun a b h => by
    cases a <;> cases b <;> first | rfl | cases h

instance : Std.LawfulEqOrd SkipReason := ⟨compare_eq_iff_eq.mp⟩

instance transCmpSkipReason : Std.TransCmp (compare : SkipReason → SkipReason → Ordering) := inferInstance

/-! ### Reports -/

inductive ScanStatus where
  | completed
  | cancelled
  | timeLimitReached
  deriving DecidableEq

structure ScanStats where
  directoriesVisited : ℕ
  filesScanned : ℕ
  bytesScanned : ℕ
  entriesSkipped : ℕ
  skippedByReason : BTreeMap SkipReason ℕ
  issues : ℕ
  findings : ℕ
  archiveMembersScanned : ℕ

def ScanStats.empty : ScanStats := ⟨0, 0, 0, 0, ∅, 0, 0, 0⟩

/-- How many entries were counted but not recorded because a recording limit was reached. -/
structure Truncation where
  findingsOmitted : ℕ
  skippedOmitted : ℕ
  issuesOmitted : ℕ
  deriving DecidableEq

def Truncation.any (t : Truncation) : Bool := t.findingsOmitted + t.skippedOmitted + t.issuesOmitted > 0

/-- The structured result of one scan. -/
structure ScanReport where
  status : ScanStatus
  stats : ScanStats
  findings : List Finding
  skipped : List SkippedEntry
  issues : List ScanIssue
  truncated : Truncation
  warnings : List String

end AbyssalWarden
