import AbyssalWarden.Runner
import AbyssalWarden.ScheduledRuns

/-! The service as a whole: clients that connect and make requests, the scheduler, the workers and the auditor, in
whatever order they come. -/
namespace AbyssalWarden

/-- A connection: the identity that the kernel recorded for it, and the accounts at that time. -/
structure Client where
  uid : ℕ
  gid : ℕ
  accounts : Accounts

def Client.peer (client : Client) (settings : AccountSettings) : Peer :=
  client.accounts.peer settings client.uid client.gid

/-- What happens to the service without a request: all but new jobs that nobody scheduled, and cancellations. -/
def ServiceEvent.background : ServiceEvent → Bool
  | .manager (.submit ..) | .manager (.cancel ..) | .runSchedule .. => false
  | _ => true

/-- What happens in the service. A schedule that a client runs is recorded by events of their own, `read` and
`save`. -/
inductive DaemonEvent where
  | request (client : Client) (world : Surroundings) (req : Request)
  | background (ev : ServiceEvent) (h : ev.background = true)
  | audited (status : AuditStatus)

/-- A request up to where other threads may come between: a schedule that is run has its job submitted. -/
def Ctx.accept (lib : Serde) (ctx : Ctx) (peer : Peer) (world : Surroundings) (req : Request) : Ctx :=
  match (req.validate lib.debug).bind fun () => authorize peer.caller req.op with
  | .error _ => ctx
  | .ok () =>
    match req.op with
    | .runSchedule name =>
      { ctx with service := ctx.service.runSchedule ctx.cfg name world.id world.now world.unsaved }
    | op => (ctx.execute lib peer world op).2

namespace DaemonEvent

def step (lib : Serde) (settings : AccountSettings) (ctx : Ctx) : DaemonEvent → Ctx
  | .request client world req => ctx.accept lib (client.peer settings) world req
  | .background ev _ => { ctx with service := ctx.service.step ctx.cfg ev }
  | .audited status => { ctx with audit := some status }

def run (lib : Serde) (settings : AccountSettings) (ctx : Ctx) (evs : List DaemonEvent) : Ctx :=
  evs.foldl (step lib settings) ctx

end DaemonEvent

/-- The service when it starts to listen. -/
def Ctx.new (cfg : ServiceConfig) (euid : ℕ) (store : JobStore) (now : OffsetDateTime) (unsaved : List Uuid)
    (schedules : Option ScheduleState) (audit : Option AuditStatus) : Ctx where
  cfg := cfg
  service := Service.new cfg (toString euid) store now unsaved schedules
  startedAt := now
  root := euid = 0
  audit := audit

variable {lib : Serde} {ctx : Ctx} {peer : Peer} {world : Surroundings} {req : Request} {settings : AccountSettings}

/-- A request leaves the configuration and, but for a schedule that is run, the threads of schedules alone. -/
theorem execute_frame {op : Op} (hop : ∀ name, op ≠ .runSchedule name) :
    (ctx.execute lib peer world op).2.cfg = ctx.cfg ∧
      (ctx.execute lib peer world op).2.service.scheduler = ctx.service.scheduler := by
  cases op with
  | scan paths heuristics noArchives quarantine =>
    rw [Ctx.execute, Ctx.submit]
    split <;> exact ⟨rfl, rfl⟩
  | systemCheck heuristics =>
    rw [Ctx.execute, Ctx.submit]
    split <;> exact ⟨rfl, rfl⟩
  | job id =>
    rw [Ctx.execute]
    split
    · split <;> exact ⟨rfl, rfl⟩
    · exact ⟨rfl, rfl⟩
  | report id =>
    rw [Ctx.execute]
    split
    · split
      · split <;> exact ⟨rfl, rfl⟩
      · exact ⟨rfl, rfl⟩
    · exact ⟨rfl, rfl⟩
  | cancel id =>
    rw [Ctx.execute]
    split
    · split
      · rw [Ctx.cancel]
        split <;> exact ⟨rfl, rfl⟩
      · exact ⟨rfl, rfl⟩
    · exact ⟨rfl, rfl⟩
  -- excluded by the hypothesis
  | runSchedule name => exact absurd rfl (hop name)
  | _ => exact ⟨rfl, rfl⟩

theorem accept_cfg : (ctx.accept lib peer world req).cfg = ctx.cfg := by
  unfold Ctx.accept
  split
  · rfl
  · split
    · rfl
    · rename_i hop
      exact (execute_frame hop).1

/-- A request that is dispatched is accepted, and then the run of a schedule is recorded at once. -/
theorem dispatch_accept : ∃ records : List ServiceEvent,
    (∀ ev ∈ records, ev.background = true) ∧
      (ctx.dispatch lib peer world req).2 =
        { ctx.accept lib peer world req with
          service := (ctx.accept lib peer world req).service.run ctx.cfg records } := by
  unfold Ctx.dispatch Ctx.accept
  cases hallowed : (req.validate lib.debug).bind fun () => authorize peer.caller req.op with
  | error r => exact ⟨[], List.forall_mem_nil _, rfl⟩
  | ok u =>
    cases hop : req.op with
    | runSchedule name =>
      simp only [Ctx.execute, Ctx.runSchedule, Service.runSchedule]
      cases hfind : ctx.cfg.schedules.find? (·.name = name) with
      | none => exact ⟨[], List.forall_mem_nil _, rfl⟩
      | some s =>
        cases hstart : ctx.service.start ctx.cfg s world.id world.now world.unsaved with
        | mk result svc =>
          cases result with
          | error e => exact ⟨[], List.forall_mem_nil _, by simp [hstart, Service.run]⟩
          | ok id =>
            refine ⟨[.read (svc.calls.length - 1) world.schedulesUnread,
              .save (svc.calls.length - 1) world.later world.schedulesUnsaved], ?_, by simp [hstart, Service.run, Service.step]⟩
            intro ev hev
            simp only [List.mem_cons, List.not_mem_nil, or_false] at hev
            rcases hev with rfl | rfl <;> rfl
    | _ => exact ⟨[], List.forall_mem_nil _, rfl⟩

end AbyssalWarden
