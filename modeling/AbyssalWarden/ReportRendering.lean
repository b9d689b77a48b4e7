import AbyssalWarden.Aggregator
import AbyssalWarden.DirectoryListing
import AbyssalWarden.ReferencedScan

/-! Human-readable report rendering, line by line. Everything in a report that came from the scanned system or from a
rule database is untrusted, and is escaped before it is written. -/
namespace AbyssalWarden.Output

/-! ### The reports, with all that is rendered -/

/-- `ContentBundleInfo` -/
structure ContentBundleInfo where
  name : String
  sequence : ℕ
  expires : OffsetDateTime
  signers : List String
  expired : Bool

/-- A scan report with what was left out of `ScanReport`. -/
structure ScanDocument extends ScanReport where
  scanId : Uuid
  startedAt : OffsetDateTime
  finishedAt : OffsetDateTime
  roots : List ObservedPath
  detectors : List DetectorInfo
  contentBundles : List ContentBundleInfo

inductive PersistenceScope where
  | system
  | user
  deriving DecidableEq

/-- An entry of the inventory with what was left out of `PersistenceEntry`. -/
structure InventoryEntry extends PersistenceEntry where
  scope : PersistenceScope
  enabled : Option Bool
  detail : Option String

inductive CheckStatus where
  | completed
  | partially
  | skipped
  | unsupported
  | failed
  deriving DecidableEq

structure CheckResult where
  title : String
  status : CheckStatus
  examined : ℕ
  detail : Option String

structure HostInfo where
  kernel : Option String
  hostname : Option String
  root : ObservedPath
  live : Bool
  euid : Option ℕ

/-- `SystemReport` -/
structure SystemDocument where
  startedAt : OffsetDateTime
  host : HostInfo
  checks : List CheckResult
  findings : List Finding
  persistence : List InventoryEntry
  issues : List ScanIssue
  referencedFiles : Option ScanDocument
  warnings : List String

/-! ### Numbers and dates -/

/-- A text of printable ASCII characters. -/
structure Formatted where
  text : String
  plain : ∀ c ∈ text.toList, ' ' ≤ c ∧ c ≤ '~'

/-- How identifiers, times and sizes are written. -/
structure Formats where
  uuid : Uuid → Formatted
  rfc3339 : OffsetDateTime → Formatted
  /-- the seconds between two times, with two decimals -/
  seconds : OffsetDateTime → OffsetDateTime → Formatted
  humanBytes : ℕ → Formatted

/-! ### Labels -/

/-- The names that serde gives to the values of an enumeration. -/
class Serialize (α : Type) where
  name : α → String

/-- The JSON spelling of an enum value, with underscores as spaces. -/
def label {α : Type} [Serialize α] (value : α) : String :=
  String.ofList ((Serialize.name value).toList.map fun c => if c = '_' then ' ' else c)

/-- `to_uppercase`; the labels are ASCII. -/
def toUppercase (s : String) : String := String.ofList (s.toList.map Char.toUpper)

instance : Serialize ScanStatus where
  name
    | .completed => "completed"
    | .cancelled => "cancelled"
    | .timeLimitReached => "time_limit_reached"

instance : Serialize SkipReason where
  name
    | .symlinkNotFollowed => "symlink_not_followed"
    | .notRegularFile => "not_regular_file"
    | .exceedsMaxFileSize => "exceeds_max_file_size"
    | .excluded => "excluded"
    | .depthLimitReached => "depth_limit_reached"
    | .duplicateFile => "duplicate_file"
    | .archiveTooLarge => "archive_too_large"
    | .archiveLimitReached => "archive_limit_reached"
    | .archiveMemberEncrypted => "archive_member_encrypted"
    | .archiveMemberUnsupported => "archive_member_unsupported"
    | .contentNotInspected => "content_not_inspected"

instance : Serialize IssueKind where
  name
    | .permissionDenied => "permission_denied"
    | .notFound => "not_found"
    | .filesystemLoop => "filesystem_loop"
    | .io => "io"
    | .detectorFailed => "detector_failed"
    | .timeout => "timeout"
    | .archiveError => "archive_error"
    | .locked => "locked"

instance : Serialize Severity where
  name
    | .info => "info"
    | .low => "low"
    | .medium => "medium"
    | .high => "high"
    | .critical => "critical"

instance : Serialize Confidence where
  name
    | .low => "low"
    | .medium => "medium"
    | .high => "high"
    | .confirmed => "confirmed"

instance : Serialize FindingKind where
  name
    | .knownIndicator => "known_indicator"
    | .suspicious => "suspicious"
    | .heuristic => "heuristic"
    | .informational => "informational"

instance : Serialize ThreatCategory where
  name
    | .malware => "malware"
    | .potentiallyUnwanted => "potentially_unwanted"
    | .testIndicator => "test_indicator"
    | .unknown => "unknown"

instance : Serialize RecommendedAction where
  name
    | .none => "none"
    | .review => "review"
    | .quarantine => "quarantine"

instance : Serialize RemediationStatus where
  name
    | .notAttempted => "not_attempted"
    | .quarantined => "quarantined"
    | .notEligible => "not_eligible"
    | .failed => "failed"
    | .allowed => "allowed"

instance : Serialize PersistenceScope where
  name
    | .system => "system"
    | .user => "user"

instance : Serialize PersistenceMechanism where
  name
    | .systemdService => "systemd_service"
    | .systemdTimer => "systemd_timer"
    | .cron => "cron"
    | .ldPreload => "ld_preload"
    | .shellProfile => "shell_profile"
    | .environment => "environment"
    | .xdgAutostart => "xdg_autostart"
    | .sshAuthorizedKeys => "ssh_authorized_keys"
    | .pam => "pam"
    | .rcLocal => "rc_local"
    | .udev => "udev"
    | .sysvInit => "sysv_init"
    | .atJob => "at_job"
    | .systemdGenerator => "systemd_generator"
    | .kernelModule => "kernel_module"
    | .motd => "motd"
    | .sshRc => "ssh_rc"
    | .initramfsHook => "initramfs_hook"
    | .bootLoader => "boot_loader"
    | .ebpf => "ebpf"
    | .registryRun => "registry_run"
    | .windowsService => "windows_service"
    | .scheduledTask => "scheduled_task"
    | .startupFolder => "startup_folder"
    | .winlogon => "winlogon"

/-! ### Text -/

/-- Maximum issues and skips listed in human output. -/
def listLimit : ℕ := 20

/-- Escape control and bidi characters, so untrusted text is inert when displayed. -/
def escapeUnsafeChars (s : String) : String :=
  String.ofList (s.toList.flatMap fun c =>
    if isControl c || isBidiControl c then '\\' :: 'u' :: '\x7b' :: Nat.toDigits 16 c.toNat ++ ['\x7d'] else [c])

def sanitize (s : String) : String := escapeUnsafeChars s

def path (p : ObservedPath) : String :=
  sanitize p.text ++
    if p.isLossy then "  [name is not valid Unicode; exact bytes are in the JSON report]" else ""

/-- An archive on disk followed by its member chain. -/
def located (p : ObservedPath) (member : Option (List ObservedPath)) : String :=
  (member.getD []).foldl (fun s m => s ++ " > " ++ path m) (path p)

/-- Left-aligned in a field of this width. -/
def padRight (width : ℕ) (s : String) : String := s ++ String.ofList (List.replicate (width - s.length) ' ')

/-- Right-aligned in a field of this width. -/
def padLeft (width : ℕ) (s : String) : String := String.ofList (List.replicate (width - s.length) ' ') ++ s

/-- `{heading:<12}`: the heading stands in the first line of a list only. -/
def heading (text : String) (i : ℕ) : String := padRight 12 (if i = 0 then text else "")

def digest (sha256 : Sha256Digest) : String := String.ofList (hexEncode sha256.bytes)

/-- What a field that is there adds to a line. -/
def whenSome {α : Type} (field : Option α) (text : α → String) : String :=
  match field with
  | some a => text a
  | none => ""

/-- The line that a field has if it is there. -/
def lineWhenSome {α : Type} (field : Option α) (text : α → String) : List String :=
  match field with
  | some a => [text a]
  | none => []

def listSuffix (listed total : ℕ) : String :=
  let shown := min listed listLimit
  if shown = total then ""
  else " (showing " ++ toString shown ++ " of " ++ toString total ++ "; use --format json for the recorded list)"

/-- Each line ended by a line feed, as `writeln!` does. -/
def writeLines (lines : List String) : String := String.join (lines.map (· ++ "\n"))

/-! ### A finding -/

def targetLines : FindingTarget → List String
  | .file p sha256 _ =>
    ("     File:         " ++ path p) :: lineWhenSome sha256 fun h => "     SHA-256:      " ++ digest h
  | .archiveMember archive member sha256 _ =>
    ("     In archive:   " ++ located archive (some member)) ::
      lineWhenSome sha256 fun h => "     SHA-256:      " ++ digest h ++ " (of the member)"
  | .persistence mechanism location entry =>
    ("     Persistence:  " ++ label mechanism ++ " in " ++ path location) ::
      lineWhenSome entry fun e => "     Entry:        " ++ sanitize e
  | .process pid name exe =>
    ["     Process:      pid " ++ toString pid ++ " (" ++ sanitize name ++ ")" ++
      whenSome exe fun exe => ", executable " ++ path exe]
  | .system component => ["     Component:    " ++ sanitize component]

def sourceLine (src : DetectionSource) : String :=
  "     Source:       " ++ sanitize src.detector ++ " " ++ sanitize src.detectorVersion ++
    (whenSome src.ruleId fun rule =>
      ", rule " ++ sanitize rule ++ whenSome src.ruleVersion fun v => " v" ++ toString v) ++
    match src.databaseName, src.databaseVersion with
    | some name, some version => ", database \"" ++ sanitize name ++ "\" " ++ sanitize version
    | _, _ => ""

def remediationLine (f : Finding) : String :=
  match f.remediationStatus with
  | .notAttempted => "     Recommended:  " ++ label f.recommendedAction ++ " (not performed)"
  | status =>
    "     Remediation:  " ++ label status ++ whenSome f.remediationDetail fun d => " (" ++ sanitize d ++ ")"

variable (fmt : Formats)

def writeFinding (n : ℕ) (f : Finding) : List String :=
  ["  " ++ toString n ++ ". [" ++ toUppercase (label f.severity) ++ "] " ++ sanitize f.name,
    "     Kind:         " ++ label f.kind ++ " (confidence: " ++ label f.confidence ++ ", category: " ++
      label f.category ++ ")"] ++
  targetLines f.target ++ [sourceLine f.source] ++
  f.evidence.map (fun e => "     Evidence:     " ++ sanitize e.summary) ++
  ["     Explanation:  " ++ sanitize f.explanation, remediationLine f] ++
  (lineWhenSome f.remediationGuidance fun g => "     Guidance:     " ++ sanitize g) ++
  ["     Finding ID:   " ++ (fmt.uuid f.id).text]

/-- `for (i, f) in findings.iter().enumerate() { write_finding(o, i + 1, f)? }` -/
def writeFindings (findings : List Finding) : List String :=
  (findings.mapIdx fun i f => writeFinding fmt (i + 1) f).flatten

/-! ### A scan report -/

def detectorLine (i : ℕ) (d : DetectorInfo) : String :=
  "  " ++ heading "Detectors:" i ++ " " ++ sanitize d.id ++ " " ++ sanitize d.version ++
    whenSome d.database fun db =>
      " (\"" ++ sanitize db.name ++ "\" version " ++ sanitize db.version ++ ", " ++ toString db.entries ++ " entries, " ++
        (match db.signer with
        | some k => "signed by key " ++ sanitize k
        | none => "UNSIGNED") ++ ")"

def bundleLine (i : ℕ) (b : ContentBundleInfo) : String :=
  "  " ++ heading "Content:" i ++ " bundle \"" ++ sanitize b.name ++ "\" sequence " ++ toString b.sequence ++
    " (signed by key " ++ sanitize (", ".intercalate b.signers) ++ ", expires " ++ (fmt.rfc3339 b.expires).text ++ ")" ++
    if b.expired then " EXPIRED" else ""

def statusLine (status : ScanStatus) : String :=
  match status with
  | .completed => "  Status:      completed"
  | status => "  Status:      " ++ toUppercase (label status) ++ " (results are partial)"

def headLines (r : ScanDocument) : List String :=
  ["Abyssal Warden scan report", "  Scan ID:     " ++ (fmt.uuid r.scanId).text, statusLine r.status,
    "  Started:     " ++ (fmt.rfc3339 r.startedAt).text ++ " (took " ++ (fmt.seconds r.startedAt r.finishedAt).text ++
      "s)"] ++
  r.roots.mapIdx (fun i root => "  " ++ heading "Scanned:" i ++ " " ++ path root) ++
  (if r.detectors.isEmpty then ["  Detectors:   none"] else []) ++ r.detectors.mapIdx detectorLine ++
  r.contentBundles.mapIdx (bundleLine fmt)

def allowedCount (r : ScanDocument) : ℕ := r.findings.countP (·.remediationStatus = .allowed)

def skippedLine (s : ScanStats) : String :=
  "  Skipped by policy:    " ++ toString s.entriesSkipped ++
    if s.skippedByReason.isEmpty then ""
    else " (" ++
      ", ".intercalate (s.skippedByReason.toList.map fun (reason, n) => label reason ++ ": " ++ toString n) ++ ")"

def summaryLines (r : ScanDocument) : List String :=
  let s := r.stats
  ["", "Summary",
    "  Files scanned:        " ++ toString s.filesScanned ++ " (" ++ (fmt.humanBytes s.bytesScanned).text ++ ")"] ++
  (if s.archiveMembersScanned > 0 then ["  Archive members:      " ++ toString s.archiveMembersScanned] else []) ++
  ["  Directories visited:  " ++ toString s.directoriesVisited, skippedLine s,
    "  Issues:               " ++ toString s.issues,
    if allowedCount r > 0 then
      "  Findings:             " ++ toString s.findings ++ " (" ++ toString (allowedCount r) ++
        " allow-listed by you)"
    else "  Findings:             " ++ toString s.findings]

def issueLine (issue : ScanIssue) : String :=
  "  " ++ padRight 18 (label issue.kind) ++ " " ++ (whenSome issue.path fun p => located p issue.member) ++
    (whenSome issue.detector fun d => " [detector " ++ sanitize d ++ "]") ++ ": " ++ sanitize issue.message

def findingLines (r : ScanDocument) : List String :=
  if r.findings.isEmpty then []
  else ["", "Findings"] ++ writeFindings fmt r.findings ++
    if r.truncated.findingsOmitted > 0 then
      ["  ... " ++ toString r.truncated.findingsOmitted ++ " more findings not recorded"]
    else []

def issueLines (r : ScanDocument) : List String :=
  if r.issues.isEmpty then []
  else ["", "Issues" ++ listSuffix r.issues.length r.stats.issues] ++ (r.issues.take listLimit).map issueLine

def skippedLines (r : ScanDocument) (showSkipped : Bool) : List String :=
  if showSkipped && !r.skipped.isEmpty then
    ["", "Skipped" ++ listSuffix r.skipped.length r.stats.entriesSkipped] ++
      (r.skipped.take listLimit).map fun sk =>
        "  " ++ padRight 28 (label sk.reason) ++ " " ++ located sk.path sk.member
  else []

def warningLines (r : ScanDocument) : List String :=
  if r.warnings.isEmpty then [] else ["", "Warnings"] ++ r.warnings.map fun w => "  ! " ++ sanitize w

def closingLine (r : ScanDocument) : String :=
  let s := r.stats
  if s.findings = 0 then
    if r.detectors.isEmpty then "No detectors ran; this scan cannot tell you whether anything is malicious."
    else "No findings. This means no file matched the loaded signatures; it is not a " ++
      "guarantee that the system is clean."
  else
    let quarantined := r.findings.countP (·.remediationStatus = .quarantined)
    if allowedCount r = s.findings then
      toString s.findings ++ " finding(s), all allow-listed (restored by you); not treated as new detections."
    else if quarantined = 0 then toString s.findings ++ " finding(s). No files were modified."
    else toString s.findings ++ " finding(s); " ++ toString quarantined ++
      " file(s) quarantined. No other files were modified."

/-- The lines of `write_report`. -/
def reportLines (r : ScanDocument) (showSkipped : Bool) : List String :=
  headLines fmt r ++ summaryLines fmt r ++ findingLines fmt r ++ issueLines r ++ skippedLines r showSkipped ++
    warningLines r ++ ["", closingLine r]

def renderHuman (r : ScanDocument) (showSkipped : Bool) : String := writeLines (reportLines fmt r showSkipped)

/-! ### A system report -/

def hostLines (r : SystemDocument) : List String :=
  let h := r.host
  ["Abyssal Warden system check",
    "  Root:      " ++ path h.root ++
      if h.live then " (running system)" else " (offline; kernel and process checks do not apply)"] ++
  (lineWhenSome h.hostname fun name => "  Host:      " ++ sanitize name) ++
  (lineWhenSome h.kernel fun k => "  Kernel:    " ++ sanitize k) ++
  (lineWhenSome h.euid fun uid =>
    "  Run as:    uid " ++ toString uid ++ if uid = 0 then "" else " (not root: coverage is limited)") ++
  ["  Started:   " ++ (fmt.rfc3339 r.startedAt).text]

def CheckStatus.text : CheckStatus → String
  | completed => "ok"
  | partially => "PARTIAL"
  | skipped => "skipped"
  | unsupported => "unsupported"
  | failed => "FAILED"

def checkLine (c : CheckResult) : String :=
  "  [" ++ padLeft 11 c.status.text ++ "] " ++ sanitize c.title ++ " (" ++ toString c.examined ++ " examined)" ++
    whenSome c.detail fun d => ": " ++ sanitize d

/-- `Severity` in the order it is declared in. -/
def severityRank : Severity → ℕ
  | .info => 0
  | .low => 1
  | .medium => 2
  | .high => 3
  | .critical => 4

/-- The findings, the most severe first. -/
def bySeverity (findings : List Finding) : List Finding :=
  stableSort (fun f => OrderDual.toDual (severityRank f.severity)) findings

def isInformational (f : Finding) : Bool := f.kind = .informational

def reviewLines (review : List Finding) : List String :=
  if review.isEmpty then ["", "No suspicious persistence or integrity problems found."]
  else ["", "Findings (" ++ toString review.length ++ "):"] ++ writeFindings fmt review

def informationalLine (f : Finding) : String :=
  "  - " ++ sanitize f.name ++ ": " ++ sanitize ((f.evidence.head?.map Evidence.summary).getD "")

def informationalLines (info : List Finding) : List String :=
  if info.isEmpty then []
  else ["", "Informational (" ++ toString info.length ++ "):"] ++ info.map informationalLine

def referencedLines (refs : ScanDocument) : List String :=
  ["", "Referenced executables: " ++ toString refs.stats.filesScanned ++ " scanned, " ++
      toString refs.findings.length ++ " finding(s)" ++
      if refs.status = .completed then "" else " (scan incomplete)"] ++
  writeFindings fmt refs.findings

/-- How many entries each mechanism has. -/
def mechanismCounts (entries : List InventoryEntry) : BTreeMap String ℕ :=
  entries.foldl (fun counts e => counts.insert (label e.mechanism) (counts[label e.mechanism]?.getD 0 + 1)) ∅

def entryLines (e : InventoryEntry) : List String :=
  ["  - [" ++ label e.mechanism ++ ", " ++ label e.scope ++ "] " ++ path e.location ++
    match e.enabled with
    | some true => " (enabled)"
    | some false => " (disabled)"
    | none => ""] ++
  (lineWhenSome e.command fun c => "      runs: " ++ sanitize c) ++
  lineWhenSome e.detail fun d => "      " ++ sanitize d

def inventoryLines (entries : List InventoryEntry) (showInventory : Bool) : List String :=
  ["", "Persistence inventory (" ++ toString entries.length ++ " entries):"] ++
  ((mechanismCounts entries).toList.map fun (m, n) => "  " ++ padRight 22 m ++ " " ++ toString n) ++
  if showInventory then entries.flatMap entryLines
  else if entries.isEmpty then []
  else ["  (use --show-inventory to list every entry, or --format json)"]

def systemIssueLines (issues : List ScanIssue) : List String :=
  if issues.isEmpty then []
  else ["", "Issues (" ++ toString issues.length ++ "):"] ++
    ((issues.take listLimit).map fun i => "  - " ++ whenSome i.path path ++ ": " ++ sanitize i.message) ++
    if issues.length > listLimit then
      ["  ... " ++ toString (issues.length - listLimit) ++ " more in the JSON report"]
    else []

/-- The lines of `write_system`. -/
def systemLines (r : SystemDocument) (showInventory : Bool) : List String :=
  let (info, review) := (bySeverity r.findings).partition isInformational
  hostLines fmt r ++ ["", "Checks:"] ++ r.checks.map checkLine ++ reviewLines fmt review ++ informationalLines info ++
    ((r.referencedFiles.map (referencedLines fmt)).getD []) ++ inventoryLines r.persistence showInventory ++
    systemIssueLines r.issues ++ r.warnings.flatMap fun w => ["", "warning: " ++ sanitize w]

def renderSystem (r : SystemDocument) (showInventory : Bool) : String := writeLines (systemLines fmt r showInventory)

end AbyssalWarden.Output
