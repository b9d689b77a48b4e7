import AbyssalWarden.Jobs

/-! The job queue and its workers. Every step is one critical section of the manager's lock, or the execution
of a job between two of them. -/
namespace AbyssalWarden

/-- A worker thread: it waits for a job, executes one, or is to record how one ended. -/
inductive Worker where
  | waiting
  | executing (id : Uuid) (spec : JobSpec)
  | finishing (id : Uuid) (result : JobResult)
  | stopped

def Worker.job : Worker → Option Uuid
  | .executing id _ | .finishing id _ => some id
  | .waiting | .stopped => none

/-- What the lock guards, with the files and the workers. A flag in `cancels` is shared with the execution
of its job. -/
structure Manager where
  jobs : Std.TreeMap Uuid JobSummary
  specs : Std.TreeMap Uuid JobSpec
  queue : List Uuid
  cancels : Std.TreeMap Uuid Bool
  shutdown : Bool
  store : JobStore
  workers : List Worker

/-- What happens to the manager. Identifiers, clock readings and failures of the files are given. -/
inductive ManagerEvent where
  | submit (owner : String) (schedule : Option String) (spec : JobSpec) (id : Uuid)
      (now : OffsetDateTime) (fault : Option String)
  | cancel (id : Uuid) (now : OffsetDateTime) (fault : Option String)
  | shutdown
  | take (worker : ℕ) (now : OffsetDateTime) (fault : Option String)
  | execute (worker : ℕ) (x : Execution)
  | finish (worker : ℕ) (now : OffsetDateTime) (fault : Option String) (stuck : JobStore.Stuck)

/-- The identifiers that are drawn. -/
def ManagerEvent.drawn : ManagerEvent → List Uuid
  | .submit _ _ _ id _ _ => [id]
  | _ => []

/-- The jobs in the order of their identifiers. -/
def jobList (jobs : Std.TreeMap Uuid JobSummary) : List JobSummary := jobs.toList.map Prod.snd

/-- Every stored job, the oldest first. -/
def JobStore.loadJobs (store : JobStore) : List JobSummary :=
  (jobList store.jobs).insertionSort fun a b => a.createdAt ≤ b.createdAt

namespace Manager

/-- Jobs that were queued or running when the service stopped are marked failed. -/
def loadJob (now : OffsetDateTime) (unsaved : List Uuid)
    (acc : Std.TreeMap Uuid JobSummary × JobStore) (j : JobSummary) :
    Std.TreeMap Uuid JobSummary × JobStore :=
  let (jobs, store) := acc
  if j.state.finished then (jobs.insert j.id j, store)
  else
    let j := { j with
      state := .failed
      error := some "interrupted: the service stopped"
      finishedAt := some now }
    (jobs.insert j.id j, store.trySaveJob j (if unsaved.contains j.id then some "" else none))

/-- Loads the history. `unsaved` lists the records that cannot be written. -/
def new (cfg : ServiceConfig) (store : JobStore) (now : OffsetDateTime) (unsaved : List Uuid) :
    Manager :=
  let (jobs, store) := store.loadJobs.foldl (loadJob now unsaved) (∅, store)
  { jobs := jobs
    specs := ∅
    queue := []
    cancels := ∅
    shutdown := false
    store := store
    workers := List.replicate cfg.maxConcurrentJobs .waiting }

/-- Changes a job, if it is there, and writes its record. -/
def updateJob (m : Manager) (id : Uuid) (f : JobSummary → JobSummary) (fault : Option String) :
    Manager :=
  match m.jobs[id]? with
  | none => m
  | some j => { m with jobs := m.jobs.insert id (f j), store := m.store.trySaveJob (f j) fault }

def setWorker (m : Manager) (worker : ℕ) (w : Worker) : Manager :=
  { m with workers := m.workers.set worker w }

/-- The summary of a job that is submitted. -/
def queuedJob (owner : String) (schedule : Option String) (spec : JobSpec) (id : Uuid)
    (now : OffsetDateTime) : JobSummary where
  id := id
  kind := spec.kind
  state := .queued
  owner := owner
  schedule := schedule
  paths := spec.paths
  heuristics := spec.heuristics
  quarantine := spec.quarantine
  asOwner := spec.runAs.isCaller
  createdAt := now
  startedAt := none
  finishedAt := none
  exitCode := none
  findings := none
  quarantined := none
  error := none

def enqueue (m : Manager) (summary : JobSummary) (spec : JobSpec) (store : JobStore) : Manager :=
  { m with
    jobs := m.jobs.insert summary.id summary
    specs := m.specs.insert summary.id spec
    queue := m.queue ++ [summary.id]
    store := store }

def submit (cfg : ServiceConfig) (m : Manager) (owner : String) (schedule : Option String)
    (spec : JobSpec) (id : Uuid) (now : OffsetDateTime) (fault : Option String) :
    Except Rejection Uuid × Manager :=
  if m.shutdown then (.error ⟨.busy, "the service is shutting down"⟩, m)
  else if m.queue.length ≥ cfg.maxQueuedJobs then
    (.error ⟨.busy, "too many queued jobs; try again later"⟩, m)
  else
    let summary := queuedJob owner schedule spec id now
    match m.store.saveJob summary fault with
    | .error e => (.error ⟨.internal, e⟩, m)
    | .ok store => (.ok id, m.enqueue summary spec store)

def cancel (m : Manager) (id : Uuid) (now : OffsetDateTime) (fault : Option String) :
    Except Rejection Unit × Manager :=
  -- a running job is only told to stop
  if m.cancels.contains id then (.ok (), { m with cancels := m.cancels.insert id true })
  else if m.queue.contains id then
    -- a queued one is cancelled at once
    let m := { m with queue := m.queue.erase id, specs := m.specs.erase id }
    (.ok (), m.updateJob id
      (fun j => { j with state := .cancelled, finishedAt := some now }) fault)
  else (.error ⟨.notFound, "the job is not queued or running"⟩, m)

/-- Stops accepting work and cancels running jobs. -/
def beginShutdown (m : Manager) : Manager :=
  { m with shutdown := true, cancels := m.cancels.map fun _ _ => true }

/-- The first job of the queue that has a specification, and the queue after it. -/
def popJob (specs : Std.TreeMap Uuid JobSpec) : List Uuid → Option (Uuid × JobSpec) × List Uuid
  | [] => (none, [])
  | id :: queue =>
    match specs[id]? with
    | some spec => (some (id, spec), queue)
    | none => popJob specs queue

/-- A waiting worker takes the next job, goes on waiting, or stops. -/
def take (m : Manager) (worker : ℕ) (now : OffsetDateTime) (fault : Option String) : Manager :=
  match m.workers[worker]? with
  | some .waiting =>
    if m.shutdown then m.setWorker worker .stopped
    else
      match popJob m.specs m.queue with
      -- entries without a specification are dropped from the queue
      | (none, queue) => { m with queue := queue }
      | (some (id, spec), queue) =>
        let m := { m with
          queue := queue
          specs := m.specs.erase id
          cancels := m.cancels.insert id false }
        (m.updateJob id (fun j => { j with state := .running, startedAt := some now }) fault).setWorker
          worker (.executing id spec)
  | _ => m

/-- The execution of a job ends; a report it has is saved before anything else. -/
def execute (cfg : ServiceConfig) (m : Manager) (worker : ℕ) (x : Execution) : Manager :=
  match m.workers[worker]? with
  | some (.executing id spec) =>
    let (result, report) := x.result cfg spec.kind
    let store := match report with
      | some data => m.store.saveReport id data
      | none => m.store
    { m with store := store }.setWorker worker (.finishing id result)
  | _ => m

/-- The job is over. -/
def endJob (m : Manager) (id : Uuid) (result : JobResult) (now : OffsetDateTime)
    (fault : Option String) : Manager :=
  { m with cancels := m.cancels.erase id }.updateJob id
    (fun j => result.apply { j with finishedAt := some now }) fault

/-- Jobs beyond the history limit go. -/
def prune (cfg : ServiceConfig) (m : Manager) (stuck : JobStore.Stuck) : Manager :=
  let (removed, store) := m.store.prune (jobList m.jobs) cfg.historyLimit stuck
  { m with jobs := removed.foldl Std.TreeMap.erase m.jobs, store := store }

def finish (cfg : ServiceConfig) (m : Manager) (worker : ℕ) (now : OffsetDateTime)
    (fault : Option String) (stuck : JobStore.Stuck) : Manager :=
  match m.workers[worker]? with
  | some (.finishing id result) =>
    -- the history is pruned while the lock is still held
    ((m.endJob id result now fault).prune cfg stuck).setWorker worker .waiting
  | _ => m

def step (cfg : ServiceConfig) (m : Manager) : ManagerEvent → Manager
  | .submit owner schedule spec id now fault => (m.submit cfg owner schedule spec id now fault).2
  | .cancel id now fault => (m.cancel id now fault).2
  | .shutdown => m.beginShutdown
  | .take worker now fault => m.take worker now fault
  | .execute worker x => m.execute cfg worker x
  | .finish worker now fault stuck => m.finish cfg worker now fault stuck

def run (cfg : ServiceConfig) (m : Manager) (evs : List ManagerEvent) : Manager :=
  evs.foldl (step cfg) m

def stateOf (m : Manager) (id : Uuid) : Option JobState := m.jobs[id]?.map JobSummary.state

end Manager

/-! ### A sample service -/

/-- One worker, and one finished job is kept. -/
def smallConfig : ServiceConfig := { dailyConfig with historyLimit := 1 }

def freshService : Manager := Manager.new smallConfig ⟨∅, ∅⟩ (onSep25 0) []

def sampleSpec : JobSpec where
  kind := .systemCheck
  paths := []
  heuristics := false
  noArchives := false
  quarantine := false
  runAs := .service

/-- The child ends with a report. -/
def sampleExecution : Execution where
  outcome := .ok ⟨some 0, false, "", false, false⟩
  report := .ok ⟨[0x7B, 0x7D], some 0, none⟩
  unsaved := none

/-- A system check is submitted, and runs to its end. -/
def runSample (id : Uuid) (second : Fin 86400) : List ManagerEvent :=
  [.submit "0" none sampleSpec id (onSep25 second) none, .take 0 (onSep25 second) none,
    .execute 0 sampleExecution]

/-- The worker records the end of the job. -/
def finishSample (second : Fin 86400) : ManagerEvent := .finish 0 (onSep25 second) none ⟨[], []⟩

end AbyssalWarden
