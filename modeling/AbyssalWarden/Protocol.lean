import AbyssalWarden.Jobs
import AbyssalWarden.Json
import AbyssalWarden.QuarantineRecord

/-! The service protocol: requests, what makes them valid, who may make them, and the replies as they are
written. -/
namespace AbyssalWarden

/-! ### Texts -/

/-- A date as year, month and day, from the number of days since the epoch. -/
def civilFromDays (day : ℤ) : ℤ × ℤ × ℤ :=
  let z := day + 719468
  let era := z / 146097
  let doe := z % 146097
  let yoe := (doe - doe / 1460 + doe / 36524 - doe / 146096) / 365
  let doy := doe - (365 * yoe + yoe / 4 - yoe / 100)
  let mp := (5 * doy + 2) / 153
  let month := if mp < 10 then mp + 3 else mp - 9
  let year := yoe + era * 400 + (if month ≤ 2 then 1 else 0)
  (year, month, doy - (153 * mp + 2) / 5 + 1)

/-- Decimal digits with leading zeros. -/
def padded (width : ℕ) (n : ℤ) : String :=
  let digits := (toString n.toNat).toList
  String.ofList (List.replicate (width - digits.length) '0' ++ digits)

/-- The fraction of a second without trailing zeros; none when it is zero. -/
def fractionText (nanos : ℤ) : String :=
  if nanos = 0 then ""
  else "." ++ String.ofList ((padded 9 nanos).toList.reverse.dropWhile (· = '0')).reverse

/-- RFC 3339, in UTC. -/
def OffsetDateTime.format (t : OffsetDateTime) : String :=
  let (year, month, day) := civilFromDays t.date.day
  let secs := t.time.nanos / 10^9
  padded 4 year ++ "-" ++ padded 2 month ++ "-" ++ padded 2 day ++ "T" ++ padded 2 (secs / 3600) ++ ":" ++
    padded 2 (secs / 60 % 60) ++ ":" ++ padded 2 (secs % 60) ++ fractionText (t.time.nanos % 10^9) ++ "Z"

def hexDigits (width n : ℕ) : List Char :=
  (List.range width).reverse.map fun i => hexDigit false (n / 16 ^ i % 16)

/-- An identifier with hyphens. -/
def Uuid.text (id : Uuid) : String :=
  let digits := hexDigits 32 id.toNat
  String.ofList (digits.take 8 ++ '-' :: (digits.drop 8).take 4 ++ '-' :: (digits.drop 12).take 4 ++
    '-' :: (digits.drop 16).take 4 ++ '-' :: digits.drop 20)

def JobKind.text : JobKind → String
  | .scan => "scan"
  | .systemCheck => "system_check"
  | .update => "update"

def JobState.text : JobState → String
  | .queued => "queued"
  | .running => "running"
  | .completed => "completed"
  | .failed => "failed"
  | .cancelled => "cancelled"
  | .timedOut => "timed_out"

def ErrorCode.text : ErrorCode → String
  | .badRequest => "bad_request"
  | .versionMismatch => "version_mismatch"
  | .unauthorized => "unauthorized"
  | .notFound => "not_found"
  | .busy => "busy"
  | .unsupported => "unsupported"
  | .internal => "internal"

/-! ### Requests -/

def protocolVersion : ℕ := 1
def maxRequest : ℕ := 64 * 1024
def maxResponse : ℕ := 64 * 1024 * 1024
def maxPathBytes : ℕ := 4096

inductive Op where
  | ping
  | status
  | scan (paths : List String) (heuristics noArchives quarantine : Bool)
  | systemCheck (heuristics : Bool)
  | jobs
  | job (job : Uuid)
  | report (job : Uuid)
  | cancel (job : Uuid)
  | schedules
  | runSchedule (name : String)
  | quarantineList
  | quarantineRestore (id : String) (allow : Bool)
  | quarantineDelete (id : String)
  | verifyAudit
  deriving DecidableEq

structure Request where
  version : ℕ
  id : UInt64
  op : Op
  deriving DecidableEq

def isHexOrHyphen (c : Char) : Bool :=
  c.isDigit || ('a' ≤ c && c ≤ 'f') || ('A' ≤ c && c ≤ 'F') || c = '-'

/-- The check of the paths of a scan, one after the other. `debug` is how a string is shown quoted. -/
def checkPaths (debug : String → String) : List String → Except Rejection Unit
  | [] => .ok ()
  | p :: rest =>
    if p.utf8ByteSize > maxPathBytes ∨ p.toList.contains '\x00' then
      .error ⟨.badRequest, "path too long or contains NUL"⟩
    else if isAbsolute p = false then .error ⟨.badRequest, "path " ++ debug p ++ " is not absolute"⟩
    else checkPaths debug rest

/-- Checks everything that does not depend on who is asking. -/
def Request.validate (debug : String → String) (r : Request) : Except Rejection Unit :=
  if r.version ≠ protocolVersion then
    .error ⟨.versionMismatch, "protocol version " ++ toString r.version ++
      " is not supported (server speaks 1)"⟩
  else
    match r.op with
    | .scan paths _ _ _ =>
      if paths = [] ∨ paths.length > maxPaths then
        .error ⟨.badRequest, "between 1 and 64 paths are required"⟩
      else checkPaths debug paths
    | .runSchedule name =>
      if validScheduleName name = false then .error ⟨.badRequest, "invalid schedule name"⟩ else .ok ()
    | .quarantineRestore id _ | .quarantineDelete id =>
      if id = "" ∨ id.utf8ByteSize > 64 ∨ id.toList.all isHexOrHyphen = false then
        .error ⟨.badRequest, "invalid quarantine id"⟩
      else .ok ()
    | _ => .ok ()

/-! ### Who may do what -/

/-- An authenticated client. -/
structure Caller where
  principal : String
  admin : Bool
  deriving DecidableEq

/-- Rejects operations the caller may not perform at all. -/
def authorize (caller : Caller) (op : Op) : Except Rejection Unit :=
  let adminOnly := match op with
    | .ping | .status | .jobs | .job _ | .report _ | .cancel _ | .schedules => false
    | .scan _ _ _ quarantine => quarantine
    | .systemCheck _ | .runSchedule _ | .quarantineList | .quarantineRestore _ _ | .quarantineDelete _
    | .verifyAudit => true
  if adminOnly && !caller.admin then
    .error ⟨.unauthorized,
      "this operation needs an administrator (root, or a member of the configured admin group)"⟩
  else .ok ()

/-- Whether the caller may see or cancel a job owned by `owner`. -/
def canAccessJob (caller : Caller) (owner : String) : Bool := caller.admin || caller.principal = owner

def scanAsCaller (caller : Caller) : Bool := !caller.admin

/-! ### Replies -/

/-- Result of comparing the quarantine audit chain with the system log. -/
structure AuditStatus where
  checkedAt : OffsetDateTime
  chainOk : Bool
  entries : ℕ
  journalChecked : Bool
  matched : ℕ
  mismatched : List ℕ
  missingLocally : List ℕ
  unanchored : ℕ
  otherChains : ℕ
  consistent : Bool
  detail : String
  deriving DecidableEq

structure ServiceStatus where
  serverVersion : String
  startedAt : OffsetDateTime
  runningAsRoot : Bool
  jobsRunning : ℕ
  jobsQueued : ℕ
  schedules : ℕ
  caller : String
  callerIsAdmin : Bool
  lastAudit : Option AuditStatus

structure ScheduleInfo where
  name : String
  kind : JobKind
  paths : List String
  everyHours : ℕ
  atUtc : Option String
  heuristics : Bool
  quarantine : Bool
  lastRun : Option OffsetDateTime
  nextRun : OffsetDateTime

structure QuarantineItem where
  id : String
  state : String
  originalPath : String
  sha256 : String
  reason : String
  createdAt : OffsetDateTime

inductive Reply where
  | pong (serverVersion : String)
  | status (s : ServiceStatus)
  | jobStarted (job : Uuid)
  | jobs (jobs : List JobSummary)
  | job (j : JobSummary)
  | report (job : Uuid) (report : Json)
  | schedules (schedules : List ScheduleInfo)
  | quarantine (items : List QuarantineItem)
  | done (message : String)
  | audit (a : AuditStatus)
  | error (code : ErrorCode) (message : String)

structure Response where
  version : ℕ
  id : UInt64
  reply : Reply

namespace Response

def new (id : UInt64) (reply : Reply) : Response := ⟨protocolVersion, id, reply⟩

def error (id : UInt64) (r : Rejection) : Response := new id (.error r.code r.message)

end Response

/-! ### Replies in JSON -/

def timeJson (t : OffsetDateTime) : Json := .str t.format

def pathsJson (paths : List String) : Json := .arr (paths.map .str)

def JobSummary.fields (j : JobSummary) : List (String × Json) :=
  [("id", .str j.id.text), ("kind", .str j.kind.text), ("state", .str j.state.text),
    ("owner", .str j.owner)] ++
  Json.optional "schedule" (j.schedule.map .str) ++
  [("paths", pathsJson j.paths), ("heuristics", .bool j.heuristics), ("quarantine", .bool j.quarantine),
    ("as_owner", .bool j.asOwner), ("created_at", timeJson j.createdAt)] ++
  Json.optional "started_at" (j.startedAt.map timeJson) ++
  Json.optional "finished_at" (j.finishedAt.map timeJson) ++
  Json.optional "exit_code" (j.exitCode.map Json.int) ++
  Json.optional "findings" (j.findings.map Json.nat) ++
  Json.optional "quarantined" (j.quarantined.map Json.nat) ++
  Json.optional "error" (j.error.map .str)

def AuditStatus.fields (a : AuditStatus) : List (String × Json) :=
  [("checked_at", timeJson a.checkedAt), ("chain_ok", .bool a.chainOk), ("entries", Json.nat a.entries),
    ("journal_checked", .bool a.journalChecked), ("matched", Json.nat a.matched),
    ("mismatched", .arr (a.mismatched.map Json.nat)),
    ("missing_locally", .arr (a.missingLocally.map Json.nat)), ("unanchored", Json.nat a.unanchored),
    ("other_chains", Json.nat a.otherChains), ("consistent", .bool a.consistent), ("detail", .str a.detail)]

def ServiceStatus.fields (s : ServiceStatus) : List (String × Json) :=
  [("server_version", .str s.serverVersion), ("started_at", timeJson s.startedAt),
    ("running_as_root", .bool s.runningAsRoot), ("jobs_running", Json.nat s.jobsRunning),
    ("jobs_queued", Json.nat s.jobsQueued), ("schedules", Json.nat s.schedules), ("caller", .str s.caller),
    ("caller_is_admin", .bool s.callerIsAdmin)] ++
  Json.optional "last_audit" (s.lastAudit.map fun a => .obj a.fields)

def ScheduleInfo.fields (s : ScheduleInfo) : List (String × Json) :=
  [("name", .str s.name), ("kind", .str s.kind.text), ("paths", pathsJson s.paths),
    ("every_hours", Json.nat s.everyHours)] ++
  Json.optional "at_utc" (s.atUtc.map .str) ++
  [("heuristics", .bool s.heuristics), ("quarantine", .bool s.quarantine)] ++
  Json.optional "last_run" (s.lastRun.map timeJson) ++
  [("next_run", timeJson s.nextRun)]

def QuarantineItem.fields (i : QuarantineItem) : List (String × Json) :=
  [("id", .str i.id), ("state", .str i.state), ("original_path", .str i.originalPath),
    ("sha256", .str i.sha256), ("reason", .str i.reason), ("created_at", timeJson i.createdAt)]

/-- The name of the variant, and its fields. -/
def Reply.parts : Reply → String × List (String × Json)
  | .pong v => ("pong", [("server_version", .str v)])
  | .status s => ("status", s.fields)
  | .jobStarted id => ("job_started", [("job", .str id.text)])
  | .jobs l => ("jobs", [("jobs", .arr (l.map fun j => .obj j.fields))])
  | .job j => ("job", j.fields)
  | .report id value => ("report", [("job", .str id.text), ("report", value)])
  | .schedules l => ("schedules", [("schedules", .arr (l.map fun s => .obj s.fields))])
  | .quarantine items => ("quarantine", [("items", .arr (items.map fun i => .obj i.fields))])
  | .done message => ("done", [("message", .str message)])
  | .audit a => ("audit", a.fields)
  | .error code message => ("error", [("code", .str code.text), ("message", .str message)])

def Reply.toJson (r : Reply) : Json := .obj (("type", .str r.parts.1) :: r.parts.2)

def Response.toJson (r : Response) : Json :=
  .obj [("version", Json.nat r.version), ("id", Json.nat r.id.toNat), ("reply", r.reply.toJson)]

/-- The times a reply writes. -/
def JobSummary.times (j : JobSummary) : List OffsetDateTime :=
  j.createdAt :: (j.startedAt.toList ++ j.finishedAt.toList)

def Reply.times : Reply → List OffsetDateTime
  | .status s => s.startedAt :: s.lastAudit.toList.map AuditStatus.checkedAt
  | .jobs l => l.flatMap JobSummary.times
  | .job j => j.times
  | .schedules l => l.flatMap fun s => s.nextRun :: s.lastRun.toList
  | .quarantine items => items.map QuarantineItem.createdAt
  | .audit a => [a.checkedAt]
  | .pong _ | .jobStarted _ | .report _ _ | .done _ | .error _ _ => []

/-- `serde_json::to_vec`: it fails at a time that RFC 3339 has no year for. -/
def Response.toVec (r : Response) : Except String Bytes :=
  if ∀ t ∈ r.reply.times, t.Rfc3339 then .ok (Json.encode r.toJson)
  else .error "the year is not in 0..=9999"

/-! ### Frames -/

inductive FrameError where
  | closed
  | tooLarge (len max : ℕ)
  | malformed (text : String)
  | io (text : String)
  deriving DecidableEq

def FrameError.text : FrameError → String
  | .closed => "connection closed"
  | .tooLarge len max => "message of " ++ toString len ++ " bytes exceeds the " ++ toString max ++ "-byte limit"
  | .malformed e => "malformed message: " ++ e
  | .io e => e

/-- A length in four bytes, the highest first. -/
def lengthBytes (n : ℕ) : Bytes :=
  [UInt8.ofNat (n / 2 ^ 24), UInt8.ofNat (n / 2 ^ 16), UInt8.ofNat (n / 2 ^ 8), UInt8.ofNat n]

/-- `write_frame`: the bytes that are written. `fault` is what writing them answers, if it fails. -/
def writeFrame (r : Response) (max : ℕ) (fault : Option String) : Except FrameError Bytes :=
  match r.toVec with
  | .error e => .error (.malformed e)
  | .ok body =>
    if body.length > max then .error (.tooLarge body.length max)
    else if body.length ≥ 2 ^ 32 then .error (.tooLarge body.length max)
    else
      match fault with
      | some e => .error (.io e)
      | none => .ok (lengthBytes body.length ++ body)

end AbyssalWarden
