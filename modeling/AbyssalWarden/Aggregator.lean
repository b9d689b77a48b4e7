import AbyssalWarden.Finding
import AbyssalWarden.StableSort

/-! What the walker and the workers send is put together into a report: counted, recorded up to the limits, and
sorted at the end. The order in which the messages come in does not show in a report that records everything. -/
namespace AbyssalWarden

/-! ### The scanner -/

inductive SymlinkPolicy where
  | skip
  | follow
  deriving DecidableEq

/-- `ScanConfig`: the settings that the report's entries and warnings depend on. -/
structure ScanConfig where
  symlinkPolicy : SymlinkPolicy
  maxRecordedEntries : ℕ
  maxRecordedFindings : ℕ
  scanTimeoutMs : Option ℕ

structure DatabaseInfo where
  name : String
  version : String
  entries : ℕ
  signer : Option String

structure DetectorInfo where
  id : String
  version : String
  database : Option DatabaseInfo

structure Scanner where
  config : ScanConfig
  detectors : List DetectorInfo

inductive StopReason where
  | cancelled
  | scanTimeLimit
  | tooManyStalls
  deriving DecidableEq

/-- What the walker and the workers send; that they exited is not for the aggregator. -/
inductive Msg where
  | directory
  | scanned (path : NativePath) (bytes : ℕ) (findings : List Finding) (issues : List ScanIssue)
      (skips : List (SkipReason × Option (List ObservedPath))) (members : ℕ)
  | skipped (path : NativePath) (reason : SkipReason)
  | issue (issue : ScanIssue)
  | exited

/-! ### The aggregator -/

/-- Accumulates results, enforcing recording limits. -/
structure Aggregator where
  stats : ScanStats
  findings : List Finding
  skipped : List SkippedEntry
  issues : List ScanIssue
  truncated : Truncation
  maxEntries : ℕ
  maxFindings : ℕ

/-- An entry is recorded below the limit and counted as omitted from there on. -/
def recordEntry {α : Type} (max : ℕ) (recorded : List α) (omitted : ℕ) (entry : α) : List α × ℕ :=
  if recorded.length < max then (recorded ++ [entry], omitted) else (recorded, omitted + 1)

/-- `*map.entry(reason).or_default() += 1` -/
def countReason (counts : BTreeMap SkipReason ℕ) (reason : SkipReason) : BTreeMap SkipReason ℕ :=
  counts.insert reason (counts[reason]?.getD 0 + 1)

namespace Aggregator

def new (config : ScanConfig) : Aggregator where
  stats := ScanStats.empty
  findings := []
  skipped := []
  issues := []
  truncated := ⟨0, 0, 0⟩
  maxEntries := config.maxRecordedEntries
  maxFindings := config.maxRecordedFindings

def skip (agg : Aggregator) (path : NativePath) (reason : SkipReason) (member : Option (List ObservedPath)) :
    Aggregator :=
  let stats := { agg.stats with
    entriesSkipped := agg.stats.entriesSkipped + 1
    skippedByReason := countReason agg.stats.skippedByReason reason }
  let (skipped, omitted) := recordEntry agg.maxEntries agg.skipped agg.truncated.skippedOmitted
    ⟨ObservedPath.fromPath path, reason, member⟩
  { agg with stats := stats, skipped := skipped, truncated := { agg.truncated with skippedOmitted := omitted } }

def finding (agg : Aggregator) (f : Finding) : Aggregator :=
  let stats := { agg.stats with findings := agg.stats.findings + 1 }
  let (findings, omitted) := recordEntry agg.maxFindings agg.findings agg.truncated.findingsOmitted f
  { agg with stats := stats, findings := findings, truncated := { agg.truncated with findingsOmitted := omitted } }

def issue (agg : Aggregator) (i : ScanIssue) : Aggregator :=
  let stats := { agg.stats with issues := agg.stats.issues + 1 }
  let (issues, omitted) := recordEntry agg.maxEntries agg.issues agg.truncated.issuesOmitted i
  { agg with stats := stats, issues := issues, truncated := { agg.truncated with issuesOmitted := omitted } }

def handle (agg : Aggregator) : Msg → Aggregator
  | .directory =>
    { agg with stats := { agg.stats with directoriesVisited := agg.stats.directoriesVisited + 1 } }
  | .scanned path bytes findings issues skips members =>
    let stats := { agg.stats with
      filesScanned := agg.stats.filesScanned + 1
      bytesScanned := agg.stats.bytesScanned + bytes
      archiveMembersScanned := agg.stats.archiveMembersScanned + members }
    let agg := findings.foldl finding { agg with stats := stats }
    let agg := issues.foldl issue agg
    skips.foldl (fun agg (reason, member) => agg.skip path reason member) agg
  | .skipped path reason => agg.skip path reason none
  | .issue i => agg.issue i
  | .exited => agg

end Aggregator

/-- `(a.target.path(), &a.name, &a.source.rule_id)`, what findings are sorted by. -/
def Finding.sortKey (f : Finding) : WithBot ObservedPath ×ₗ String ×ₗ WithBot String :=
  toLex (orBot f.target.path, toLex (f.name, orBot f.source.ruleId))

/-- What a reader of the report must see. -/
def Scanner.warnings (scanner : Scanner) (stats : ScanStats) (truncated : Truncation)
    (stopReason : Option StopReason) (abandoned : ℕ) : List String :=
  let unsigned := (scanner.detectors.filterMap DetectorInfo.database).filter (·.signer = none)
  (if scanner.detectors.isEmpty then
    ["No detectors were configured: files were enumerated and hashed but not evaluated " ++
      "for threats. The absence of findings means nothing."] else []) ++
  (if unsigned.isEmpty then [] else
    ["Detection content was loaded without signature verification: " ++
      ", ".intercalate (unsigned.map DatabaseInfo.name) ++ ". Its authenticity is unknown."]) ++
  (match stopReason with
    | some .cancelled => ["The scan was cancelled; results are partial."]
    | some .scanTimeLimit =>
      ["The scan time limit (" ++ toString (scanner.config.scanTimeoutMs.getD 0 / 1000) ++
        " s) was reached; results are partial."]
    | some .tooManyStalls =>
      ["Too many files stalled past their time limit, so the scan was stopped; results are partial."]
    | none => []) ++
  (if abandoned > 0 then
    [toString abandoned ++ " file(s) stalled and were abandoned (see timeout issues). Their " ++
      "threads may stay blocked in the background until the process exits."] else []) ++
  (if stats.issues > 0 then
    [toString stats.issues ++ " entries could not be fully scanned; coverage is incomplete (see issues)."]
    else []) ++
  (if truncated.any then
    ["Recording limits were reached: some entries are counted in stats but not listed."] else []) ++
  (if scanner.config.symlinkPolicy = .follow then
    ["Symbolic links were followed; scanned files may lie outside the scan roots."] else [])

/-- The report: worker completion order is nondeterministic, so the lists are sorted. -/
def Aggregator.finish (agg : Aggregator) (scanner : Scanner) (status : ScanStatus) (stopReason : Option StopReason)
    (abandoned : ℕ) : ScanReport where
  status := status
  stats := agg.stats
  findings := stableSort Finding.sortKey agg.findings
  skipped := stableSort SkippedEntry.path agg.skipped
  issues := stableSort (fun i => orBot i.path) agg.issues
  truncated := agg.truncated
  warnings := scanner.warnings agg.stats agg.truncated stopReason abandoned

/-- A scan: what is wrong with the roots comes first, then the messages as they come in. -/
def Scanner.report (scanner : Scanner) (targetIssues : List ScanIssue) (status : ScanStatus)
    (stopReason : Option StopReason) (abandoned : ℕ) (msgs : List Msg) : ScanReport :=
  (msgs.foldl Aggregator.handle (targetIssues.foldl Aggregator.issue (Aggregator.new scanner.config))).finish
    scanner status stopReason abandoned

end AbyssalWarden
