import AbyssalWarden.Schedule

/-! The jobs of the service, their records on disk, and what a worker makes of a child that ended. -/
namespace AbyssalWarden

/-- Job identifiers are ordered as 128-bit numbers. -/
abbrev Uuid := BitVec 128

inductive JobState where
  | queued
  | running
  | completed
  | failed
  | cancelled
  | timedOut
  deriving DecidableEq, Repr

def JobState.finished : JobState → Bool
  | .queued | .running => false
  | _ => true

inductive RunAs where
  | service
  | caller (uid gid : ℕ)
  deriving DecidableEq, Repr

def RunAs.isCaller : RunAs → Bool
  | .service => false
  | .caller _ _ => true

structure JobSpec where
  kind : JobKind
  paths : List String
  heuristics : Bool
  noArchives : Bool
  quarantine : Bool
  runAs : RunAs
  deriving DecidableEq, Repr

structure JobSummary where
  id : Uuid
  kind : JobKind
  state : JobState
  owner : String
  schedule : Option String
  paths : List String
  heuristics : Bool
  quarantine : Bool
  asOwner : Bool
  createdAt : OffsetDateTime
  startedAt : Option OffsetDateTime
  finishedAt : Option OffsetDateTime
  exitCode : Option ℤ
  findings : Option ℕ
  quarantined : Option ℕ
  error : Option String
  deriving DecidableEq

inductive ErrorCode where
  | badRequest
  | versionMismatch
  | unauthorized
  | notFound
  | busy
  | unsupported
  | internal
  deriving DecidableEq, Repr

/-- A request that failed validation or authorisation. -/
structure Rejection where
  code : ErrorCode
  message : String
  deriving DecidableEq, Repr

/-! ### How a job ends -/

structure JobResult where
  state : JobState := .failed
  exitCode : Option ℤ := none
  findings : Option ℕ := none
  quarantined : Option ℕ := none
  error : Option String := none

namespace JobResult

def failed (e : String) : JobResult := { error := some e }

def apply (r : JobResult) (j : JobSummary) : JobSummary :=
  { j with
    state := r.state
    exitCode := r.exitCode
    findings := r.findings
    quarantined := r.quarantined
    error := r.error }

end JobResult

/-- What is left of a child. Its error output is trimmed and escaped. -/
structure RunOutcome where
  exitCode : Option ℤ
  stdoutTruncated : Bool
  stderr : String
  timedOut : Bool
  cancelled : Bool

/-- The report that a child printed, as it is saved, with what was counted in it. -/
structure ChildReport where
  bytes : Bytes
  findings : Option ℕ
  quarantined : Option ℕ

/-- What one execution of a job comes to: whether the child could be run and how it ended, what its output
reads as, and why its report could not be saved, if it could not. -/
structure Execution where
  outcome : Except String RunOutcome
  report : Except String ChildReport
  unsaved : Option String

/-- The word for the report of such a job. -/
def JobKind.reportName : JobKind → String
  | .scan => "scan"
  | .systemCheck => "system"
  | .update => "update"

/-- The result of a job, and the report that was saved. -/
def Execution.result (x : Execution) (cfg : ServiceConfig) (kind : JobKind) :
    JobResult × Option Bytes :=
  match x.outcome with
  | .error e => (.failed e, none)
  | .ok outcome =>
    -- the first of these that applies is the result
    if outcome.cancelled then ({ state := .cancelled, exitCode := outcome.exitCode }, none)
    else if outcome.timedOut then
      ({ state := .timedOut
         error := some ("killed after " ++ toString (cfg.jobTimeoutMinutes + 1) ++ " minutes") }, none)
    else if outcome.exitCode = some 2 ∨ outcome.exitCode = none ∨ outcome.stdoutTruncated then
      ({ JobResult.failed (if outcome.stdoutTruncated then "report larger than 256 MiB"
          else outcome.stderr) with exitCode := outcome.exitCode }, none)
    else match x.report with
      | .error e =>
        (.failed ("unreadable " ++ kind.reportName ++ " report: " ++ e ++ "; " ++ outcome.stderr), none)
      | .ok report =>
        ({ state := .completed
           exitCode := outcome.exitCode
           findings := if kind = .update then none else report.findings
           quarantined := if kind = .scan then report.quarantined else none
           -- a report that cannot be saved is lost, and the job is completed nevertheless
           error := x.unsaved.map ("report not saved: " ++ ·) },
          if x.unsaved = none then some report.bytes else none)

/-- A job that was executed is over. -/
theorem Execution.result_finished (x : Execution) (cfg : ServiceConfig) (kind : JobKind) :
    (x.result cfg kind).1.state.finished = true := by
  unfold Execution.result
  split
  · rfl
  · split
    · rfl
    · split
      · rfl
      · split
        · rfl
        · split <;> rfl

/-! ### The records on disk -/

/-- `jobs/<id>.json` and `reports/<id>.json`. -/
structure JobStore where
  jobs : Std.TreeMap Uuid JobSummary
  reports : Std.TreeMap Uuid Bytes

namespace JobStore

/-- Writing the record may fail. -/
def saveJob (store : JobStore) (job : JobSummary) (fault : Option String) : Except String JobStore :=
  match fault with
  | some e => .error e
  | none => .ok { store with jobs := store.jobs.insert job.id job }

/-- `let _ = store.save_job(job)` -/
def trySaveJob (store : JobStore) (job : JobSummary) (fault : Option String) : JobStore :=
  match store.saveJob job fault with
  | .ok store => store
  | .error _ => store

def saveReport (store : JobStore) (id : Uuid) (data : Bytes) : JobStore :=
  { store with reports := store.reports.insert id data }

/-- The files that cannot be removed. -/
structure Stuck where
  jobs : List Uuid
  reports : List Uuid

/-- `remove_file(job_path(id)).is_ok()` -/
def removable (store : JobStore) (stuck : Stuck) (id : Uuid) : Bool :=
  store.jobs.contains id && !stuck.jobs.contains id

/-- Removes the report of a job and then its record. Returns the jobs whose records are gone. -/
def removeJob (stuck : Stuck) (acc : List Uuid × JobStore) (j : JobSummary) : List Uuid × JobStore :=
  let (removed, store) := acc
  let reports := if stuck.reports.contains j.id then store.reports else store.reports.erase j.id
  if store.removable stuck j.id then (removed ++ [j.id], ⟨store.jobs.erase j.id, reports⟩)
  else (removed, { store with reports := reports })

/-- Deletes the first finished jobs beyond `keep`; returns the removed ids. -/
def prune (store : JobStore) (jobs : List JobSummary) (keep : ℕ) (stuck : Stuck) :
    List Uuid × JobStore :=
  let finished := jobs.filter fun j => j.state.finished
  let excess := finished.length - keep
  (finished.take excess).foldl (removeJob stuck) ([], store)

end JobStore

end AbyssalWarden
