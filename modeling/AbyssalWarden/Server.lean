import AbyssalWarden.Protocol
import AbyssalWarden.Scheduler

/-! Requests are dispatched and answered. What a request meets outside the service (the clock, the files, the
quarantine store) is given with it. -/
namespace AbyssalWarden

def maxRequestsPerConnection : ℕ := 1000
def maxListed : ℕ := 500
def maxReportRead : ℕ := maxResponse / 2
def serverVersion : String := "0.1.0"

/-- An authenticated client, and the identity a scan for it runs as. -/
structure Peer where
  caller : Caller
  uid : ℕ
  gid : ℕ
  deriving DecidableEq

/-- What a request is served from. -/
structure Ctx where
  cfg : ServiceConfig
  service : Service
  startedAt : OffsetDateTime
  root : Bool
  audit : Option AuditStatus

/-- The libraries: how a string is shown quoted, and JSON read back. -/
structure Serde where
  debug : String → String
  fromSlice : Bytes → Except String Json

/-- What a request meets: an identifier that is drawn, the clock read twice, what the files and the quarantine
store answer. -/
structure Surroundings where
  id : Uuid
  now : OffsetDateTime
  later : OffsetDateTime
  unsaved : Option String
  schedulesUnread : Bool
  schedulesUnsaved : Option String
  reportUnread : Option String
  storeExists : Bool
  opened : Except String Unit
  listed : Except String (List QuarantineRecord)
  restored : Except String NativePath
  found : Except String QuarantineRecord
  allowed : Except String Unit
  deleted : Except String Unit
  checked : AuditStatus

/-- `escape_unsafe_chars` -/
def escapeUnsafeChars (s : String) : String :=
  String.ofList (s.toList.flatMap fun c =>
    if isControl c || isBidiControl c then ['\\', 'u', '\x7b'] ++ Nat.toDigits 16 c.toNat ++ ['\x7d']
    else [c])

def sanitize (s : String) : String := escapeUnsafeChars s

def notFound : Rejection := ⟨.notFound, "no such job"⟩

def internal (e : String) : Rejection := ⟨.internal, sanitize e⟩

namespace Manager

/-- Jobs matching `visible`, newest first. -/
def list (m : Manager) (visible : JobSummary → Bool) : List JobSummary :=
  (((jobList m.jobs).filter visible).insertionSort fun a b => b.createdAt ≤ a.createdAt).take maxListed

/-- The jobs that run, and those that wait. -/
def counts (m : Manager) : ℕ × ℕ := (m.cancels.size, m.queue.length)

/-- A report is read up to a length, and then as JSON. -/
def report (lib : Serde) (m : Manager) (id : Uuid) (fault : Option String) :
    Except String (Option Json) :=
  match m.store.reports[id]? with
  | none => .ok none
  | some data =>
    match fault with
    | some e => .error e
    | none => (lib.fromSlice (data.take maxReportRead)).map some

end Manager

/-- `schedule::info`; the arithmetic of the next run may panic. -/
def scheduleInfo (cfg : ServiceConfig) (state : ScheduleState) (now : OffsetDateTime) :
    Option (List ScheduleInfo) :=
  cfg.schedules.mapM fun s => (nextDue s state[s.name]? now).map fun next =>
    { name := s.name
      kind := s.kind
      paths := s.paths
      everyHours := s.everyHours
      atUtc := s.atUtc
      heuristics := s.heuristics
      quarantine := s.quarantine
      lastRun := state[s.name]?
      nextRun := next }

def ItemState.text : ItemState → String
  | .pending => "pending"
  | .quarantined => "quarantined"
  | .restored => "restored"
  | .deleted => "deleted"
  | .rolledBack => "rolled_back"
  | .failed => "failed"

def QuarantineRecord.item (r : QuarantineRecord) : QuarantineItem where
  id := r.id.text
  state := r.state.text
  originalPath := r.original.path.text
  sha256 := r.original.sha256.toHex
  reason := (r.reason.detectionName.or r.reason.note).getD ""
  createdAt := r.createdAt

def parseId (id : String) : Except Rejection QuarantineId :=
  if h : id.toList.length = 32 ∧ id.toList.all isIdChar = true then .ok ⟨id, h⟩
  else .error ⟨.badRequest, "invalid quarantine id"⟩

/-- Where a scan for this client runs: as the client, unless it is an administrator. -/
def scanIdentity (peer : Peer) : RunAs :=
  if scanAsCaller peer.caller then .caller peer.uid peer.gid else .service

/-- A reply or a rejection; a request whose arithmetic panics has neither. -/
abbrev Executed := Option (Except Rejection Reply)

namespace Ctx

def withManager (ctx : Ctx) (m : Manager) : Ctx :=
  { ctx with service := { ctx.service with manager := m } }

/-- A job is submitted for the peer. -/
def submit (ctx : Ctx) (peer : Peer) (world : Surroundings) (spec : JobSpec) : Executed × Ctx :=
  match ctx.service.manager.submit ctx.cfg peer.caller.principal none spec world.id world.now
      world.unsaved with
  | (.error e, m) => (some (.error e), ctx.withManager m)
  | (.ok id, m) => (some (.ok (.jobStarted id)), ctx.withManager m)

def status (ctx : Ctx) (caller : Caller) : ServiceStatus :=
  let (running, queued) := ctx.service.manager.counts
  { serverVersion := serverVersion
    startedAt := ctx.startedAt
    runningAsRoot := ctx.root
    jobsRunning := running
    jobsQueued := queued
    schedules := ctx.cfg.schedules.length
    caller := caller.principal
    callerIsAdmin := caller.admin
    lastAudit := if caller.admin then ctx.audit else none }

def cancel (ctx : Ctx) (world : Surroundings) (id : Uuid) : Executed × Ctx :=
  match ctx.service.manager.cancel id world.now world.unsaved with
  | (.error e, m) => (some (.error e), ctx.withManager m)
  | (.ok (), m) => (some (.ok (.done ("cancelling job " ++ id.text))), ctx.withManager m)

/-- The job is submitted, and the run recorded. -/
def runSchedule (ctx : Ctx) (world : Surroundings) (name : String) : Executed × Ctx :=
  match ctx.cfg.schedules.find? (·.name = name) with
  | none => (some (.error ⟨.notFound, "no such schedule"⟩), ctx)
  | some s =>
    match ctx.service.start ctx.cfg s world.id world.now world.unsaved with
    | (.error e, svc) => (some (.error e), { ctx with service := svc })
    | (.ok id, svc) =>
      let call := svc.calls.length - 1
      (some (.ok (.jobStarted id)),
        { ctx with
          service := (svc.read call world.schedulesUnread).save call world.later world.schedulesUnsaved })

def quarantineList (world : Surroundings) : Except Rejection Reply :=
  if world.storeExists then
    match world.opened with
    | .error e => .error (internal e)
    | .ok () =>
      match world.listed with
      | .error e => .error (internal e)
      | .ok records => .ok (.quarantine (records.map QuarantineRecord.item))
  else .ok (.quarantine [])

def quarantineRestore (world : Surroundings) (id : String) (allow : Bool) : Except Rejection Reply := do
  world.opened.mapError internal
  let qid ← parseId id
  let target ← world.restored.mapError internal
  let message := "restored " ++ qid.text ++ " to " ++ sanitize target.display
  if allow then
    let _ ← world.found.mapError internal
    world.allowed.mapError internal
    .ok (.done (message ++ "; allow-listed"))
  else .ok (.done message)

def quarantineDelete (world : Surroundings) (id : String) : Except Rejection Reply := do
  world.opened.mapError internal
  let qid ← parseId id
  world.deleted.mapError internal
  .ok (.done ("deleted " ++ qid.text))

/-- `execute`, with the state it leaves. -/
def execute (lib : Serde) (ctx : Ctx) (peer : Peer) (world : Surroundings) : Op → Executed × Ctx
  | .ping => (some (.ok (.pong serverVersion)), ctx)
  | .status => (some (.ok (.status (ctx.status peer.caller))), ctx)
  | .scan paths heuristics noArchives quarantine =>
    ctx.submit peer world ⟨.scan, paths, heuristics, noArchives, quarantine, scanIdentity peer⟩
  | .systemCheck heuristics =>
    -- only administrators get here, and a system check runs with the service's rights
    ctx.submit peer world ⟨.systemCheck, [], heuristics, false, false, .service⟩
  -- a caller who may not see a job gets the answer for one that does not exist
  | .jobs => (some (.ok (.jobs (ctx.service.manager.list fun j => canAccessJob peer.caller j.owner))), ctx)
  | .job id =>
    match ctx.service.manager.jobs[id]? with
    | some j => if canAccessJob peer.caller j.owner then (some (.ok (.job j)), ctx)
        else (some (.error notFound), ctx)
    | none => (some (.error notFound), ctx)
  | .report id =>
    match ctx.service.manager.jobs[id]? with
    | some j =>
      if canAccessJob peer.caller j.owner then
        match ctx.service.manager.report lib id world.reportUnread with
        | .error e => (some (.error (internal e)), ctx)
        | .ok (some report) => (some (.ok (.report id report)), ctx)
        | .ok none =>
          (some (.error ⟨.notFound, "no report: the job has not finished, or it failed"⟩), ctx)
      else (some (.error notFound), ctx)
    | none => (some (.error notFound), ctx)
  | .cancel id =>
    match ctx.service.manager.jobs[id]? with
    | some j => if canAccessJob peer.caller j.owner then ctx.cancel world id
        else (some (.error notFound), ctx)
    | none => (some (.error notFound), ctx)
  | .schedules =>
    ((scheduleInfo ctx.cfg (ctx.service.scheduleState world.schedulesUnread) world.now).map
      fun l => .ok (.schedules l), ctx)
  | .runSchedule name => ctx.runSchedule world name
  | .quarantineList => (some (quarantineList world), ctx)
  | .quarantineRestore id allow => (some (quarantineRestore world id allow), ctx)
  | .quarantineDelete id => (some (quarantineDelete world id), ctx)
  | .verifyAudit => (some (.ok (.audit world.checked)), { ctx with audit := some world.checked })

def respond (id : UInt64) : Except Rejection Reply → Response
  | .ok reply => Response.new id reply
  | .error r => Response.error id r

def dispatch (lib : Serde) (ctx : Ctx) (peer : Peer) (world : Surroundings) (req : Request) :
    Option Response × Ctx :=
  match (req.validate lib.debug).bind fun () => authorize peer.caller req.op with
  | .error r => (some (Response.error req.id r), ctx)
  | .ok () =>
    let (result, ctx) := ctx.execute lib peer world req.op
    (result.map (respond req.id), ctx)

end Ctx

/-! ### A connection -/

/-- One round of a connection: what is read, who the peer is if it is asked, the service at that time, what
the request meets, and what writing the response answers if it fails. -/
structure Turn where
  frame : Except FrameError Request
  identified : Option Peer
  ctx : Ctx
  world : Surroundings
  fault : Option String

/-- What happens on a connection. A request is received from a peer, if it can be identified; what is no
request is refused. -/
inductive WireEvent where
  | received (turn : Turn) (req : Request) (peer : Option Peer)
  | refused (e : FrameError)
  | sent (r : Response) (frame : Bytes)
  | closed

/-- `converse`, for the rounds there are. -/
def converse (lib : Serde) : ℕ → Option Peer → List Turn → List WireEvent
  | 0, _, _ => [.closed]
  | _ + 1, _, [] => []
  | n + 1, peer, turn :: rest =>
    match turn.frame with
    -- nothing is answered where the connection is closed or broken
    | .error .closed | .error (.io _) => [.closed]
    | .error e =>
      let r := Response.error 0 ⟨.badRequest, e.text⟩
      .refused e ::
        match writeFrame r maxResponse turn.fault with
        | .ok frame => [.sent r frame, .closed]
        | .error _ => [.closed]
    | .ok req =>
      -- the peer is asked for once, at the first request
      let peer := peer.or turn.identified
      .received turn req peer ::
        match peer with
        | none => [.closed]
        | some p =>
          match (turn.ctx.dispatch lib p turn.world req).1 with
          | none => [.closed]
          | some r =>
            match writeFrame r maxResponse turn.fault with
            -- an answer that is too long, or that cannot be written, closes the connection
            | .error _ => [.closed]
            | .ok frame => .sent r frame :: converse lib n (some p) rest

end AbyssalWarden
