import AbyssalWarden.JobInvariant

/-! The scheduler thread and the clients that run a schedule. A start submits a job, then reads the schedule
state, puts its time in and writes it back; other threads may come between. -/
namespace AbyssalWarden

/-- The last run of each schedule. -/
abbrev ScheduleState := Std.TreeMap String OffsetDateTime

inductive StartPhase where
  | submitted
  | read (state : ScheduleState)
  | returned

/-- A call of `start` whose job was accepted, and the time its job was created. -/
structure StartCall where
  schedule : Schedule
  createdAt : OffsetDateTime
  phase : StartPhase

/-- Where the scheduler thread is: between two polls, or before one of the schedules, waiting for a start of
its own to return. Its arithmetic may end it. -/
inductive SchedulerPhase where
  | sleeping
  | checking (now : OffsetDateTime) (state : ScheduleState) (rest : List Schedule)
      (awaited : Option ℕ)
  | ended

/-- The manager, `schedules.json` if it can be parsed, and the threads. `principal` owns scheduled jobs. -/
structure Service where
  principal : String
  manager : Manager
  schedules : Option ScheduleState
  calls : List StartCall
  scheduler : SchedulerPhase

inductive ServiceEvent where
  | manager (ev : ManagerEvent)
  | poll (now : OffsetDateTime) (fault : Bool)
  | check (id : Uuid) (now : OffsetDateTime) (fault : Option String)
  | runSchedule (name : String) (id : Uuid) (now : OffsetDateTime) (fault : Option String)
  | read (call : ℕ) (fault : Bool)
  | save (call : ℕ) (now : OffsetDateTime) (fault : Option String)

def ServiceEvent.drawn : ServiceEvent → List Uuid
  | .manager ev => ev.drawn
  | .check id _ _ | .runSchedule _ id _ _ => [id]
  | _ => []

def Schedule.spec (s : Schedule) : JobSpec where
  kind := s.kind
  paths := if s.kind = .scan then s.paths else []
  heuristics := s.heuristics
  noArchives := false
  quarantine := s.quarantine
  runAs := .service

namespace Service

/-- A service that just started. -/
def new (cfg : ServiceConfig) (principal : String) (store : JobStore) (now : OffsetDateTime)
    (unsaved : List Uuid) (schedules : Option ScheduleState) : Service where
  principal := principal
  manager := Manager.new cfg store now unsaved
  schedules := schedules
  calls := []
  scheduler := .sleeping

/-- `schedule_state`: empty when the file is missing or cannot be read. -/
def scheduleState (svc : Service) (fault : Bool) : ScheduleState :=
  if fault then ∅ else svc.schedules.getD ∅

/-- Starts `s`: its job is submitted. -/
def start (cfg : ServiceConfig) (svc : Service) (s : Schedule) (id : Uuid) (now : OffsetDateTime)
    (fault : Option String) : Except Rejection Uuid × Service :=
  match svc.manager.submit cfg svc.principal (some s.name) s.spec id now fault with
  | (.error e, manager) => (.error e, { svc with manager := manager })
  | (.ok id, manager) =>
    (.ok id, { svc with manager := manager, calls := svc.calls ++ [⟨s, now, .submitted⟩] })

/-- The start continues: it reads the schedule state. -/
def read (svc : Service) (call : ℕ) (fault : Bool) : Service :=
  match svc.calls[call]? with
  | some ⟨s, createdAt, .submitted⟩ =>
    { svc with calls := svc.calls.set call ⟨s, createdAt, .read (svc.scheduleState fault)⟩ }
  | _ => svc

/-- The run is recorded, and the start returns; a state that cannot be written is only logged. -/
def save (svc : Service) (call : ℕ) (now : OffsetDateTime) (fault : Option String) : Service :=
  match svc.calls[call]? with
  | some ⟨s, createdAt, .read state⟩ =>
    { svc with
      calls := svc.calls.set call ⟨s, createdAt, .returned⟩
      schedules := match fault with
        | some _ => svc.schedules
        | none => some (state.insert s.name now) }
  | _ => svc

def poll (cfg : ServiceConfig) (svc : Service) (now : OffsetDateTime) (fault : Bool) : Service :=
  match svc.scheduler with
  | .sleeping => { svc with scheduler := .checking now (svc.scheduleState fault) cfg.schedules none }
  | _ => svc

/-- The scheduler's own start has returned. -/
def unblocked (svc : Service) (awaited : Option ℕ) : Bool :=
  match awaited with
  | none => true
  | some call =>
    match svc.calls[call]? with
    | some ⟨_, _, .returned⟩ => true
    | _ => false

/-- The scheduler looks at the next schedule of its poll, and starts it when it is due. -/
def check (cfg : ServiceConfig) (svc : Service) (id : Uuid) (now : OffsetDateTime)
    (fault : Option String) : Service :=
  match svc.scheduler with
  | .checking polled state rest awaited =>
    if svc.unblocked awaited then
      match rest with
      | [] => { svc with scheduler := .sleeping }
      | s :: rest =>
        -- the state and the time are those of the poll, for all its schedules
        match nextDue s state[s.name]? polled with
        | none => { svc with scheduler := .ended }
        | some due =>
          if polled ≥ due then
            match svc.start cfg s id now fault with
            -- a start that is refused is logged
            | (.error _, svc) => { svc with scheduler := .checking polled state rest none }
            | (.ok _, svc') =>
              -- the scheduler goes on when the start has returned
              { svc' with scheduler := .checking polled state rest (some svc.calls.length) }
          else { svc with scheduler := .checking polled state rest none }
    else svc
  | _ => svc

def runSchedule (cfg : ServiceConfig) (svc : Service) (name : String) (id : Uuid)
    (now : OffsetDateTime) (fault : Option String) : Service :=
  match cfg.schedules.find? (·.name = name) with
  | none => svc
  | some s => (svc.start cfg s id now fault).2

def step (cfg : ServiceConfig) (svc : Service) : ServiceEvent → Service
  | .manager ev => { svc with manager := svc.manager.step cfg ev }
  | .poll now fault => svc.poll cfg now fault
  | .check id now fault => svc.check cfg id now fault
  | .runSchedule name id now fault => svc.runSchedule cfg name id now fault
  | .read call fault => svc.read call fault
  | .save call now fault => svc.save call now fault

def run (cfg : ServiceConfig) (svc : Service) (evs : List ServiceEvent) : Service :=
  evs.foldl (step cfg) svc

/-! ### What an event does to the manager -/

/-- The schedule that the event starts, before the manager is asked. -/
def starts (cfg : ServiceConfig) (svc : Service) : ServiceEvent → Option Schedule
  | .check _ _ _ =>
    match svc.scheduler with
    | .checking polled state (s :: _) awaited =>
      if svc.unblocked awaited && pollFindsDue s state[s.name]? polled then some s else none
    | _ => none
  | .runSchedule name _ _ _ => cfg.schedules.find? (·.name = name)
  | _ => none

end Service

/-! ### A sample service -/

def hourlyCheck : Schedule where
  name := "hourly"
  kind := .systemCheck
  paths := []
  everyHours := 1
  atUtc := none
  heuristics := false
  quarantine := false

def hourlyConfig : ServiceConfig := { dailyConfig with schedules := [hourlyCheck, dailyScan] }

def hourlyService : Service := Service.new hourlyConfig "0" ⟨∅, ∅⟩ (onSep25 0) [] none

end AbyssalWarden
