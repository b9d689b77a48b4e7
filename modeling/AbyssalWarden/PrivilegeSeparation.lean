import AbyssalWarden.DaemonRuns
import AbyssalWarden.Isolation
import AbyssalWarden.JobOrder

/-! What the children of the service may do. A job keeps the identity of the one who asked for it through the queue,
whatever else happens meanwhile, and its child has no more rights than that. -/
namespace AbyssalWarden

open Manager

variable {cfg : ServiceConfig} {m : Manager} {ev : ManagerEvent} {id : Uuid} {spec spec' : JobSpec} {svc : Service}
  {sev : ServiceEvent} {lib : Serde} {settings : AccountSettings} {ctx : Ctx} {peer : Peer} {world : Surroundings}
  {req : Request} {env : Environment} {host : ServiceHost}

/-! ### Jobs in the manager -/

/-- The job waits in the queue or is executed, with this specification. -/
def Manager.Has (m : Manager) (id : Uuid) (spec : JobSpec) : Prop :=
  m.specs[id]? = some spec ∨ ∃ worker : ℕ, m.workers[worker]? = some (.executing id spec)

theorem setWorker_has {worker : ℕ} {w : Worker} (h : (m.setWorker worker w).Has id spec) :
    m.Has id spec ∨ w = .executing id spec := by
  rcases h with hspec | ⟨worker', hworker⟩
  · exact .inl (.inl hspec)
  · rw [Manager.setWorker, List.getElem?_set] at hworker
    split at hworker
    · split at hworker
      · exact .inr (Option.some.inj hworker)
      · cases hworker
    · exact .inl (.inr ⟨worker', hworker⟩)

theorem updateJob_has {id' : Uuid} {f : JobSummary → JobSummary} {fault : Option String}
    (h : (m.updateJob id' f fault).Has id spec) : m.Has id spec := by
  obtain ⟨jobs, store, heq, -⟩ := updateJob_eq m id' f fault
  rw [heq] at h
  exact h

theorem erase_has {specs : Std.TreeMap Uuid JobSpec} {id' : Uuid} (h : (specs.erase id')[id]? = some spec) :
    specs[id]? = some spec := by
  rw [getElem?_erase_ite] at h
  split at h
  · cases h
  · exact h

/-- A job that starts was waiting. -/
theorem take_has {worker : ℕ} {now : OffsetDateTime} {fault : Option String}
    (h : (m.take worker now fault).Has id spec) : m.Has id spec := by
  unfold Manager.take at h
  split at h
  · split at h
    · exact (setWorker_has h).resolve_right nofun
    · split at h
      · exact h
      · rename_i id' spec' queue hpop
        rcases setWorker_has h with hbefore | hstarted
        · rcases updateJob_has hbefore with hspec | hworker
          · exact .inl (erase_has hspec)
          · exact .inr hworker
        · obtain ⟨rfl, rfl⟩ := Worker.executing.inj hstarted
          exact .inl (popJob_spec hpop)
  · exact h

/-- Only a submission adds a job. -/
theorem step_has (h : (m.step cfg ev).Has id spec) :
    m.Has id spec ∨ ∃ owner schedule now fault, ev = .submit owner schedule spec id now fault := by
  -- the other events only move jobs, or remove them
  cases ev with
  | submit owner schedule spec' id' now fault =>
    rw [Manager.step, submit_eq] at h
    split at h
    · rcases h with hspec | hworker
      · change (m.specs.insert id' spec')[id]? = some spec at hspec
        rw [getElem?_insert_ite] at hspec
        split at hspec
        · rename_i heq
          obtain rfl := Option.some.inj hspec
          exact .inr ⟨owner, schedule, now, fault, by rw [heq]⟩
        · exact .inl (.inl hspec)
      · exact .inl (.inr hworker)
    · exact .inl h
  | cancel id' now fault =>
    rw [Manager.step, Manager.cancel] at h
    split_ifs at h
    · exact .inl h
    · rcases updateJob_has h with hspec | hworker
      · exact .inl (.inl (erase_has hspec))
      · exact .inl (.inr hworker)
    · exact .inl h
  | shutdown => exact .inl h
  | take worker now fault => exact .inl (take_has h)
  | execute worker x =>
    rw [Manager.step, Manager.execute] at h
    split at h
    · have hbefore := (setWorker_has h).resolve_right fun h => by cases h
      exact .inl hbefore
    · exact .inl h
  | finish worker now fault stuck =>
    rw [Manager.step, Manager.finish] at h
    split at h
    · have hpruned := (setWorker_has h).resolve_right fun h => by cases h
      have hended : (m.endJob _ _ now fault).Has id spec := hpruned
      unfold Manager.endJob at hended
      have hbefore := updateJob_has hended
      exact .inl hbefore
    · exact .inl h

/-! ### Who asked for a job -/

/-- The job that a request asks for itself. -/
def Op.jobSpec (peer : Peer) : Op → Option JobSpec
  | .scan paths heuristics noArchives quarantine =>
    some ⟨.scan, paths, heuristics, noArchives, quarantine, scanIdentity peer⟩
  | .systemCheck heuristics => some ⟨.systemCheck, [], heuristics, false, false, .service⟩
  | _ => none

/-- The event asks for the job: a client with a request that is valid and authorised, an administrator who runs a
schedule, or the scheduler. -/
inductive DaemonEvent.Asks (lib : Serde) (cfg : ServiceConfig) (settings : AccountSettings) (id : Uuid)
    (spec : JobSpec) : DaemonEvent → Prop where
  | request {client : Client} {world : Surroundings} {req : Request} : req.validate lib.debug = .ok () →
    authorize (client.peer settings).caller req.op = .ok () → req.op.jobSpec (client.peer settings) = some spec →
    world.id = id → Asks lib cfg settings id spec (.request client world req)
  | run {client : Client} {world : Surroundings} {req : Request} {s : Schedule} :
    (client.peer settings).caller.admin = true → req.op = .runSchedule s.name → s ∈ cfg.schedules → s.spec = spec →
    world.id = id → Asks lib cfg settings id spec (.request client world req)
  | due {now : OffsetDateTime} {fault : Option String} {s : Schedule} {h : (ServiceEvent.check id now fault).background = true} :
    s ∈ cfg.schedules → s.spec = spec → Asks lib cfg settings id spec (.background (.check id now fault) h)

/-- The scheduler goes through configured schedules. -/
def Service.Polls (cfg : ServiceConfig) (svc : Service) : Prop :=
  ∀ polled state rest awaited, svc.scheduler = .checking polled state rest awaited → rest ⊆ cfg.schedules

theorem start_scheduler (cfg : ServiceConfig) (svc : Service) (s : Schedule) (id : Uuid) (now : OffsetDateTime)
    (fault : Option String) : (svc.start cfg s id now fault).2.scheduler = svc.scheduler := by
  unfold Service.start
  split <;> rfl

theorem Service.Polls.of_eq {svc' : Service} (h : svc.Polls cfg) (heq : svc'.scheduler = svc.scheduler) :
    svc'.Polls cfg := by
  intro polled state rest awaited hphase
  exact h polled state rest awaited (heq ▸ hphase)

theorem runSchedule_polls {name : String} {now : OffsetDateTime} {fault : Option String} (h : svc.Polls cfg) :
    (svc.runSchedule cfg name id now fault).Polls cfg := by
  unfold Service.runSchedule
  split
  · exact h
  · exact h.of_eq (start_scheduler ..)

/-- The scheduler leaves the schedules that it has looked at. -/
theorem check_polls {now : OffsetDateTime} {fault : Option String} (h : svc.Polls cfg) :
    (svc.check cfg id now fault).Polls cfg := by
  unfold Service.check
  split
  · rename_i polled state rest awaited hphase
    split
    · split
      · intro polled' state' rest' awaited' heq
        cases heq
      · rename_i s rest
        have hrest : rest ⊆ cfg.schedules := List.Subset.trans (List.subset_cons_self s rest) (h _ _ _ _ hphase)
        split
        · intro polled' state' rest' awaited' heq
          cases heq
        · split
          · split <;>
            · intro polled' state' rest' awaited' heq
              cases heq
              exact hrest
          · intro polled' state' rest' awaited' heq
            cases heq
            exact hrest
    · exact h
  · exact h

theorem step_polls (h : svc.Polls cfg) : (svc.step cfg sev).Polls cfg := by
  cases sev with
  | manager ev => exact h
  | poll now fault =>
    rw [Service.step, Service.poll]
    split
    · intro polled state rest awaited heq
      cases heq
      exact List.Subset.refl _
    · exact h
  | check id now fault => exact check_polls h
  | runSchedule name id now fault => exact runSchedule_polls h
  | read call fault =>
    rw [Service.step, Service.read]
    split <;> exact h
  | save call now fault =>
    rw [Service.step, Service.save]
    split <;> exact h

theorem starts_mem {s : Schedule} (h : svc.Polls cfg) (hstarts : svc.starts cfg sev = some s) :
    s ∈ cfg.schedules := by
  unfold Service.starts at hstarts
  split at hstarts
  · split at hstarts
    · rename_i polled state first rest awaited hphase
      split at hstarts
      · cases hstarts
        exact h _ _ _ _ hphase List.mem_cons_self
      · cases hstarts
    · cases hstarts
  · exact List.mem_of_find?_eq_some hstarts
  · cases hstarts

/-- Without a request only the scheduler adds a job, of a configured schedule. -/
theorem background_has (hpolls : svc.Polls cfg) (hbackground : sev.background = true)
    (h : (svc.step cfg sev).manager.Has id spec) :
    svc.manager.Has id spec ∨
      ∃ now fault s, sev = .check id now fault ∧ s ∈ cfg.schedules ∧ s.spec = spec := by
  rw [step_manager] at h
  cases hev : svc.managerEvent cfg sev with
  | none =>
    rw [hev] at h
    exact .inl h
  | some ev =>
    rw [hev] at h
    rcases step_has h with hbefore | ⟨owner, schedule, now, fault, rfl⟩
    · exact .inl hbefore
    · cases sev with
      | manager ev =>
        cases hev
        cases hbackground
      | check id' now' fault' =>
        obtain ⟨s, hstarts, hsubmit⟩ := Option.bind_eq_some_iff.mp hev
        cases hsubmit
        exact .inr ⟨now, fault, s, rfl, starts_mem hpolls hstarts, rfl⟩
      | runSchedule name id' now' fault' => cases hbackground
      | _ => cases hev

/-! ### Requests -/

theorem admin_of_authorize {caller : Caller} {name : String} (h : authorize caller (.runSchedule name) = .ok ()) :
    caller.admin = true := by
  cases hadmin : caller.admin with
  | true => rfl
  | false =>
    rw [authorize, hadmin] at h
    cases h

/-- Who is no administrator asks for scans only, without quarantine. -/
theorem spec_of_user {op : Op} (hadmin : peer.caller.admin = false) (hauth : authorize peer.caller op = .ok ())
    (hspec : op.jobSpec peer = some spec) :
    spec.kind = .scan ∧ spec.quarantine = false ∧ spec.runAs = .caller peer.uid peer.gid := by
  cases op with
  | scan paths heuristics noArchives quarantine =>
    cases hspec
    refine ⟨rfl, ?_, by simp [scanIdentity, scanAsCaller, hadmin]⟩
    cases quarantine with
    | false => rfl
    | true =>
      rw [authorize, hadmin] at hauth
      cases hauth
  | systemCheck heuristics =>
    rw [authorize, hadmin] at hauth
    cases hauth
  | _ => cases hspec

theorem spec_of_admin {op : Op} (hadmin : peer.caller.admin = true) (hspec : op.jobSpec peer = some spec) :
    spec.runAs = .service := by
  cases op with
  | scan paths heuristics noArchives quarantine =>
    cases hspec
    simp [scanIdentity, scanAsCaller, hadmin]
  | systemCheck heuristics =>
    cases hspec
    rfl
  | _ => cases hspec

theorem submit_has (h : (ctx.submit peer world spec).2.service.manager.Has id spec') :
    ctx.service.manager.Has id spec' ∨ world.id = id ∧ spec' = spec := by
  have hmanager : (ctx.submit peer world spec).2.service.manager = ctx.service.manager.step ctx.cfg
      (.submit peer.caller.principal none spec world.id world.now world.unsaved) := by
    rw [Ctx.submit, Manager.step]
    split <;> rename_i heq <;> rw [heq] <;> rfl
  rw [hmanager] at h
  rcases step_has h with hbefore | ⟨owner, schedule, now, fault, heq⟩
  · exact .inl hbefore
  · cases heq
    exact .inr ⟨rfl, rfl⟩

theorem cancel_has (h : (ctx.cancel world id').2.service.manager.Has id spec) : ctx.service.manager.Has id spec := by
  rw [Ctx.cancel_state] at h
  have hstep : (ctx.service.manager.step ctx.cfg (.cancel id' world.now world.unsaved)).Has id spec := h
  rcases step_has hstep with hbefore | ⟨owner, schedule, now, fault, heq⟩
  · exact hbefore
  · cases heq

/-- A request adds no job but the one it asks for. -/
theorem execute_has {op : Op} (hop : ∀ name, op ≠ .runSchedule name)
    (h : (ctx.execute lib peer world op).2.service.manager.Has id spec) :
    ctx.service.manager.Has id spec ∨ world.id = id ∧ op.jobSpec peer = some spec := by
  cases op with
  | scan paths heuristics noArchives quarantine =>
    rcases submit_has h with hbefore | ⟨hid, rfl⟩
    · exact .inl hbefore
    · exact .inr ⟨hid, rfl⟩
  | systemCheck heuristics =>
    rcases submit_has h with hbefore | ⟨hid, rfl⟩
    · exact .inl hbefore
    · exact .inr ⟨hid, rfl⟩
  | job id' =>
    rw [execute_job] at h
    split at h <;> exact .inl h
  | report id' =>
    rw [execute_report] at h
    split at h
    · split at h <;> exact .inl h
    · exact .inl h
  | cancel id' =>
    rw [execute_cancel] at h
    split at h
    · exact .inl (cancel_has h)
    · exact .inl h
  | runSchedule name => exact absurd rfl (hop name)
  | _ => exact .inl h

/-- The requests after which there is a job more are those that ask for it. -/
theorem accept_has {client : Client}
    (h : (ctx.accept lib (client.peer settings) world req).service.manager.Has id spec) :
    ctx.service.manager.Has id spec ∨ (DaemonEvent.request client world req).Asks lib ctx.cfg settings id spec := by
  unfold Ctx.accept at h
  split at h
  · exact .inl h
  · rename_i hallowed
    cases hvalid : req.validate lib.debug with
    | error e =>
      rw [hvalid] at hallowed
      cases hallowed
    | ok u =>
      rw [hvalid] at hallowed
      have hauth : authorize (client.peer settings).caller req.op = .ok () := hallowed
      split at h
      · rename_i name hop
        unfold Service.runSchedule at h
        split at h
        · exact .inl h
        -- only an administrator runs a schedule, and its job is the configured one
        · rename_i s hfind
          dsimp only at h
          rw [start_manager] at h
          have hname : s.name = name := by simpa using List.find?_some hfind
          rcases step_has h with hbefore | ⟨owner, schedule, now, fault, heq⟩
          · exact .inl hbefore
          · cases heq
            rw [hop] at hauth
            exact .inr (.run (admin_of_authorize hauth) (hname ▸ hop) (List.mem_of_find?_eq_some hfind) rfl rfl)
      -- every other request adds the job that it names
      · rename_i hop
        rcases execute_has hop h with hbefore | ⟨hid, hspec⟩
        · exact .inl hbefore
        · exact .inr (.request hvalid hauth hspec hid)

/-! ### Whole runs -/

theorem accept_polls (h : ctx.service.Polls ctx.cfg) :
    (ctx.accept lib peer world req).service.Polls ctx.cfg := by
  unfold Ctx.accept
  split
  · exact h
  · split
    · exact runSchedule_polls h
    · rename_i hop
      exact h.of_eq (execute_frame hop).2

/-- Every job was asked for. -/
theorem run_has {evs : List DaemonEvent} (hpolls : ctx.service.Polls ctx.cfg)
    (h : (DaemonEvent.run lib settings ctx evs).service.manager.Has id spec) :
    ctx.service.manager.Has id spec ∨ ∃ ev ∈ evs, ev.Asks lib ctx.cfg settings id spec := by
  induction evs generalizing ctx with
  | nil => exact .inl h
  | cons ev evs ih =>
    rw [DaemonEvent.run, List.foldl_cons, ← DaemonEvent.run] at h
    cases ev with
    | request client world req =>
      have hcfg : (ctx.accept lib (client.peer settings) world req).cfg = ctx.cfg := accept_cfg
      rcases ih (hcfg ▸ accept_polls hpolls) h with hbefore | ⟨ev, hev, hasks⟩
      · rcases accept_has hbefore with hstart | hasks
        · exact .inl hstart
        · exact .inr ⟨_, List.mem_cons_self, hasks⟩
      · exact .inr ⟨ev, List.mem_cons_of_mem _ hev, hcfg ▸ hasks⟩
    | background sev hbackground =>
      rcases ih (step_polls hpolls) h with hbefore | ⟨ev, hev, hasks⟩
      · rcases background_has hpolls hbackground hbefore with hstart | ⟨now, fault, s, rfl, hs, hspec⟩
        · exact .inl hstart
        · exact .inr ⟨_, List.mem_cons_self, .due hs hspec⟩
      · exact .inr ⟨ev, List.mem_cons_of_mem _ hev, hasks⟩
    | audited status =>
      rcases @ih { ctx with audit := some status } hpolls h with hbefore | ⟨ev, hev, hasks⟩
      · exact .inl hbefore
      · exact .inr ⟨ev, List.mem_cons_of_mem _ hev, hasks⟩

/-! ### Commands -/

/-- The client of a request. -/
def DaemonEvent.asker (settings : AccountSettings) : DaemonEvent → Option Peer
  | .request client _ _ => some (client.peer settings)
  | _ => none

/-- The child of a job has no more rights than who asked for it (nobody, for a job of the scheduler). -/
structure Command.Confined (env : Environment) (spec : JobSpec) (prepared : Except String Unit) (installed : Bool)
    (asker : Option Peer) (command : Command) : Prop where
  /-- A client that is no administrator gets a scan without quarantine, as this client and without capabilities. -/
  user : ∀ peer, asker = some peer → peer.caller.admin = false →
    spec.kind = .scan ∧ spec.quarantine = false ∧ peer.uid ≠ 0 ∧
      (env.euid = 0 → setprivArgs (.user peer.uid peer.gid) <+: command.args) ∧ (env.euid ≠ 0 → peer.uid = env.euid)
  /-- Other jobs of a service that is root run as the scanner account, with the capabilities of their kind. -/
  scanner : env.euid = 0 → (∀ peer, asker = some peer → peer.caller.admin = true) →
    ∃ uid gid, env.scanner = some (uid, gid) ∧ uid ≠ 0 ∧
      setprivArgs (.account uid gid spec.kind.caps) <+: command.args
  program : env.euid = 0 → env.setpriv = some command.program
  /-- What is scanned follows a separator, and nothing before it depends on it. -/
  paths : spec.kind = .scan → ∃ options, ∀ paths,
    env.child { spec with paths := paths } prepared installed =
      .ok { command with args := options ++ "--" :: paths }

theorem child_eq_ok {prepared : Except String Unit} {installed : Bool} {command : Command} :
    env.child spec prepared installed = .ok command ↔ ∃ identity, env.identity spec = .ok identity ∧
      prepared = .ok () ∧
        runnerCommand env.setpriv env.binary identity (env.args spec identity installed) = .ok command := by
  unfold Environment.child
  rw [except_bind_eq_ok]
  refine exists_congr fun identity => and_congr_right fun _ => ?_
  cases prepared with
  | error e =>
    constructor
    · intro h
      cases h
    · rintro ⟨h, -⟩
      cases h
  | ok u => exact ⟨fun h => ⟨rfl, h⟩, fun h => h.2⟩

/-- A scan's child is told its paths last. -/
theorem args_scan (hkind : spec.kind = .scan) (identity : Identity) (installed : Bool) :
    ∃ options, ∀ paths, env.args { spec with paths := paths } identity installed = options ++ "--" :: paths := by
  have hargs (paths : List String) (stateFile content : String) (secs : ℕ) :
      childArgs { spec with paths := paths } env.cfg stateFile content installed secs =
        ["scan", "--format", "json", "--no-progress", "--no-allowlist", "--scan-timeout", toString secs] ++
          (if spec.noArchives then ["--no-archives"] else []) ++
          contentArgs spec.heuristics env.cfg stateFile content installed ++ "--" :: paths := by
    rw [childArgs]
    simp only [hkind]
  exact ⟨_, fun paths => hargs paths _ _ _⟩

/-- The arguments of the child are the last of its command, after what depends on the identity alone. -/
theorem runnerCommand_args {setpriv : Option String} {binary : String} {identity : Identity} {args : List String}
    {command : Command} (h : runnerCommand setpriv binary identity args = .ok command) :
    ∃ lead, ∀ args', runnerCommand setpriv binary identity args' = .ok { command with args := lead ++ args' } := by
  cases identity with
  | inherit =>
    cases h
    exact ⟨[], fun _ => rfl⟩
  | account uid gid caps =>
    cases setpriv with
    | none => cases h
    | some sp =>
      cases h
      exact ⟨setprivArgs (.account uid gid caps) ++ [binary], fun _ => by rw [List.append_assoc]; rfl⟩
  | user uid gid =>
    cases setpriv with
    | none => cases h
    | some sp =>
      cases h
      exact ⟨setprivArgs (.user uid gid) ++ [binary], fun _ => by rw [List.append_assoc]; rfl⟩

/-- The paths are the last arguments of the command too. -/
theorem child_paths {prepared : Except String Unit} {installed : Bool} {command : Command}
    (hchild : env.child spec prepared installed = .ok command) (hkind : spec.kind = .scan) :
    ∃ options, ∀ paths, env.child { spec with paths := paths } prepared installed =
      .ok { command with args := options ++ "--" :: paths } := by
  obtain ⟨identity, hidentity, hprepared, hcommand⟩ := child_eq_ok.mp hchild
  obtain ⟨options, hargs⟩ := @args_scan spec env hkind identity installed
  obtain ⟨lead, hlead⟩ := runnerCommand_args hcommand
  refine ⟨lead ++ options, fun paths => child_eq_ok.mpr ⟨identity, hidentity, hprepared, ?_⟩⟩
  rw [hargs, hlead, List.append_assoc]

/-- A job of a client, as an environment that was prepared starts it. -/
theorem confined_user {prepared : Except String Unit} {installed : Bool} {command : Command} (henv : env.Prepared)
    (hchild : env.child spec prepared installed = .ok command) (hkind : spec.kind = .scan)
    (hquarantine : spec.quarantine = false) (hrunAs : spec.runAs = .caller peer.uid peer.gid)
    (huser : peer.caller.admin = false) (hne : peer.uid ≠ 0) :
    command.Confined env spec prepared installed (some peer) := by
  obtain ⟨identity, hidentity, hprepared, hcommand⟩ := child_eq_ok.mp hchild
  -- as root, the client's identity is taken on by the program that starts the scanner
  have hroot : env.euid = 0 → env.setpriv = some command.program ∧
      setprivArgs (.user peer.uid peer.gid) <+: command.args := by
    intro heuid
    obtain ⟨sp, uid, gid, hsetpriv, hscanner, -⟩ := henv.root heuid
    rw [Environment.identity, hrunAs, hscanner] at hidentity
    cases hidentity
    rw [hsetpriv] at hcommand
    cases hcommand
    exact ⟨hsetpriv, List.prefix_append _ _⟩
  -- without root, the service can be no one but itself
  have hother : env.euid ≠ 0 → peer.uid = env.euid := by
    intro heuid
    rw [Environment.identity, hrunAs, (henv.other heuid).2] at hidentity
    by_contra hdiffers
    simp only [if_neg hdiffers] at hidentity
    cases hidentity
  refine ⟨fun p hp _ => ?_, fun _ hadmin => ?_, fun heuid => (hroot heuid).1, child_paths hchild⟩
  · cases hp
    exact ⟨hkind, hquarantine, hne, fun heuid => (hroot heuid).2, hother⟩
  · rw [hadmin peer rfl] at huser
    cases huser

/-- A job of an administrator or of the scheduler. -/
theorem confined_service {prepared : Except String Unit} {installed : Bool} {command : Command} {asker : Option Peer}
    (henv : env.Prepared) (hchild : env.child spec prepared installed = .ok command) (hrunAs : spec.runAs = .service)
    (hasker : ∀ peer, asker = some peer → peer.caller.admin = true) :
    command.Confined env spec prepared installed asker := by
  obtain ⟨identity, hidentity, hprepared, hcommand⟩ := child_eq_ok.mp hchild
  have hroot : env.euid = 0 → env.setpriv = some command.program ∧ ∃ uid gid, env.scanner = some (uid, gid) ∧
      uid ≠ 0 ∧ setprivArgs (.account uid gid spec.kind.caps) <+: command.args := by
    intro heuid
    obtain ⟨sp, uid, gid, hsetpriv, hscanner, hne⟩ := henv.root heuid
    rw [Environment.identity, hrunAs, hscanner] at hidentity
    cases hidentity
    rw [hsetpriv] at hcommand
    cases hcommand
    exact ⟨hsetpriv, uid, gid, hscanner, hne, List.prefix_append _ _⟩
  refine ⟨fun p hp hadmin => ?_, fun heuid _ => (hroot heuid).2, fun heuid => (hroot heuid).1, child_paths hchild⟩
  rw [hasker p hp] at hadmin
  cases hadmin

/-- Whatever clients, the scheduler and the workers do, and in whatever order: every job that is executed was asked
for, by a valid request that its client may make or by the scheduler, and its child has no more rights than that. -/
theorem children_confined {store : JobStore} {now : OffsetDateTime} {unsaved : List Uuid}
    {schedules : Option ScheduleState} {audit : Option AuditStatus} {evs : List DaemonEvent} {worker : ℕ}
    {prepared : Except String Unit} {installed : Bool} {command : Command}
    (hstart : host.environment cfg settings = .ok env)
    (hexecuting : (DaemonEvent.run lib settings
      (Ctx.new cfg host.euid store now unsaved schedules audit) evs).service.manager.workers[worker]? =
        some (.executing id spec))
    (hchild : env.child spec prepared installed = .ok command) :
    ∃ ev ∈ evs, ev.Asks lib cfg settings id spec ∧
      command.Confined env spec prepared installed (ev.asker settings) := by
  obtain ⟨henv, -⟩ := environment_prepared hstart
  -- at the start no job is there, so this one was asked for
  have hnew : ¬ (Ctx.new cfg host.euid store now unsaved schedules audit).service.manager.Has id spec := by
    rintro (hspec | ⟨worker, hworker⟩)
    · exact absurd hspec (by simp [Ctx.new, Service.new, Manager.new])
    · have hwaiting := List.eq_of_mem_replicate (List.mem_of_getElem? hworker)
      cases hwaiting
  have hpolls : (Ctx.new cfg host.euid store now unsaved schedules audit).service.Polls cfg := by
    intro polled state rest awaited hphase
    cases hphase
  obtain ⟨ev, hev, hasks⟩ := (run_has hpolls (.inr ⟨worker, hexecuting⟩)).resolve_left hnew
  refine ⟨ev, hev, hasks, ?_⟩
  -- a client's request, a schedule that an administrator runs, or one that was due
  cases hasks with
  | request hvalid hauth hspec hid =>
    rename_i client world req
    cases hadmin : (client.peer settings).caller.admin with
    | true => exact confined_service henv hchild (spec_of_admin hadmin hspec) (by rintro _ ⟨⟩; exact hadmin)
    | false =>
      obtain ⟨hkind, hquarantine, hrunAs⟩ := spec_of_user hadmin hauth hspec
      exact confined_user henv hchild hkind hquarantine hrunAs hadmin (Accounts.uid_ne_zero hadmin)
  | run hadmin hop hs hspec hid =>
    rename_i client world req s
    exact confined_service henv hchild (hspec ▸ rfl) (by rintro _ ⟨⟩; exact hadmin)
  | due hs hspec => exact confined_service henv hchild (hspec ▸ rfl) nofun

/-! ### A sample -/

/-- A host with a scanner account and a user. -/
def daemonHost : ServiceHost where
  euid := 0
  binary := "/usr/bin/abyssal-warden"
  isFile path := path = "/usr/bin/setpriv"
  accounts := ⟨[⟨"root", 0, 0⟩, ⟨"abyssal-warden", 990, 990⟩, ⟨"alice", 1000, 1000⟩], []⟩
  debug s := "\"" ++ s ++ "\""

def sampleSettings : AccountSettings := ⟨[], none, "abyssal-warden"⟩

def alice : Client := ⟨1000, 1000, daemonHost.accounts⟩

/-- Alice asks for a scan of her files, and a worker takes the job. -/
def aliceScan : List DaemonEvent :=
  [.request alice { noStore with id := 3 } ⟨protocolVersion, 7, .scan ["/home/alice"] false false false⟩,
    .background (.manager (.take 0 (onSep25 20) none)) rfl]

def aliceSpec : JobSpec := ⟨.scan, ["/home/alice"], false, false, false, .caller 1000 1000⟩

def sampleEnvironment : Environment :=
  ⟨dailyConfig, daemonHost.binary, some "/usr/bin/setpriv", some (990, 990), 0⟩

def aliceCommand : Command where
  program := "/usr/bin/setpriv"
  args := ["--reuid=1000", "--regid=1000", "--init-groups", "--inh-caps=-all", "--bounding-set=-all",
    "--no-new-privs", "--", "/usr/bin/abyssal-warden", "scan", "--format", "json", "--no-progress", "--no-allowlist",
    "--scan-timeout", "14400", "--", "/home/alice"]
  env := childEnv

theorem children_confined_alice : ∃ ev ∈ aliceScan, ev.Asks quotingSerde dailyConfig sampleSettings 3 aliceSpec ∧
    aliceCommand.Confined sampleEnvironment aliceSpec (.ok ()) false (ev.asker sampleSettings) := by
  have hstart : daemonHost.environment dailyConfig sampleSettings = .ok sampleEnvironment := rfl
  have hexecuting : (DaemonEvent.run quotingSerde sampleSettings
      (Ctx.new dailyConfig daemonHost.euid ⟨∅, ∅⟩ (onSep25 0) [] none none)
        aliceScan).service.manager.workers[0]? = some (.executing 3 aliceSpec) := rfl
  have hchild : sampleEnvironment.child aliceSpec (.ok ()) false = .ok aliceCommand := rfl
  exact children_confined hstart hexecuting hchild

end AbyssalWarden
