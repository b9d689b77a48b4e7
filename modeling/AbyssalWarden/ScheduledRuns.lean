import AbyssalWarden.Scheduler

/-! Whether runs of a schedule pile up. The scheduler looks at the time of the last start only, and the
manager takes a job whatever else of its schedule is queued or running. -/
namespace AbyssalWarden

variable {cfg : ServiceConfig} {m : Manager} {ev : ManagerEvent} {id : Uuid} {name : String}
  {svc : Service} {sev : ServiceEvent} {evs : List ServiceEvent}

/-! ### The manager sees jobs of a schedule come and go -/

namespace Manager

/-- The jobs of a schedule that are queued or running. -/
def unfinished (m : Manager) (name : String) : List JobSummary :=
  (jobList m.jobs).filter fun j => j.schedule = some name ∧ j.state.finished = false

/-- The manager takes a job, if its record can be written. -/
def accepts (cfg : ServiceConfig) (m : Manager) (fault : Option String) : Bool :=
  !m.shutdown && m.queue.length < cfg.maxQueuedJobs && fault.isNone

end Manager

/-- The event adds a job of the schedule. -/
def ManagerEvent.adds (cfg : ServiceConfig) (m : Manager) (name : String) : ManagerEvent → Bool
  | .submit _ schedule _ _ _ fault => schedule = some name && m.accepts cfg fault
  | _ => false

theorem submit_eq {owner : String} {schedule : Option String} {spec : JobSpec} {now : OffsetDateTime}
    {fault : Option String} : (m.submit cfg owner schedule spec id now fault).2 =
      if m.accepts cfg fault then
        m.enqueue (Manager.queuedJob owner schedule spec id now) spec
          { m.store with
            jobs := m.store.jobs.insert id (Manager.queuedJob owner schedule spec id now) }
      else m := by
  unfold Manager.submit Manager.accepts
  by_cases hdown : m.shutdown = true
  · simp [hdown]
  · by_cases hfull : m.queue.length ≥ cfg.maxQueuedJobs
    · have hnot : ¬ m.queue.length < cfg.maxQueuedJobs := by omega
      simp [hdown, hfull, hnot]
    · have hroom : m.queue.length < cfg.maxQueuedJobs := by omega
      cases fault with
      | none =>
        have hid : (Manager.queuedJob owner schedule spec id now).id = id := rfl
        simp [hdown, hroom, hfull, JobStore.saveJob, hid]
      | some e => simp [hdown, hroom, hfull, JobStore.saveJob]

/-- The schedule of a job does not change. -/
theorem step_schedule (h : m.Invariant cfg) {j : JobSummary}
    (hj : (m.step cfg ev).jobs[id]? = some j) :
    (∃ old : JobSummary, m.jobs[id]? = some old ∧ old.schedule = j.schedule) ∨
      ∃ owner spec now fault, ev = .submit owner j.schedule spec id now fault ∧
        m.accepts cfg fault = true := by
  -- `update_job` keeps the schedule of every job
  have hupdate {m : Manager} {id' : Uuid} {f : JobSummary → JobSummary} {fault : Option String}
      (hj : (m.updateJob id' f fault).jobs[id]? = some j) (hf : ∀ j, (f j).schedule = j.schedule) :
      ∃ old : JobSummary, m.jobs[id]? = some old ∧ old.schedule = j.schedule := by
    obtain ⟨jobs, store, heq, hjobs⟩ := updateJob_eq m id' f fault
    rw [heq] at hj
    dsimp only at hj
    rw [hjobs] at hj
    split at hj
    · rename_i hid
      obtain ⟨old, hold, rfl⟩ := Option.map_eq_some_iff.mp hj
      exact ⟨old, hid ▸ hold, (hf old).symm⟩
    · exact ⟨j, hj, rfl⟩
  cases ev with
  | submit owner schedule spec id' now fault =>
    rw [Manager.step, submit_eq] at hj
    split at hj
    · rename_i haccepts
      change (m.jobs.insert id' (Manager.queuedJob owner schedule spec id' now))[id]? = some j at hj
      rw [getElem?_insert_ite] at hj
      split at hj
      · rename_i hid
        cases hj
        exact .inr ⟨owner, spec, now, fault, by rw [hid]; rfl, haccepts⟩
      · exact .inl ⟨j, hj, rfl⟩
    · exact .inl ⟨j, hj, rfl⟩
  -- the other events only update jobs, or remove them
  | cancel id' now fault =>
    rw [Manager.step, Manager.cancel] at hj
    split_ifs at hj
    · exact .inl ⟨j, hj, rfl⟩
    · dsimp only at hj
      have hold := hupdate hj fun _ => rfl
      exact .inl hold
    · exact .inl ⟨j, hj, rfl⟩
  | shutdown => exact .inl ⟨j, hj, rfl⟩
  | take worker now fault =>
    rw [Manager.step, Manager.take] at hj
    split at hj
    · split at hj
      · exact .inl ⟨j, hj, rfl⟩
      · split at hj
        · exact .inl ⟨j, hj, rfl⟩
        · unfold Manager.setWorker at hj
          dsimp only at hj
          have hold := hupdate hj fun _ => rfl
          exact .inl hold
    · exact .inl ⟨j, hj, rfl⟩
  | execute worker x =>
    rw [Manager.step, Manager.execute] at hj
    split at hj <;> exact .inl ⟨j, hj, rfl⟩
  | finish worker now fault stuck =>
    rw [Manager.step, Manager.finish] at hj
    split at hj
    · rename_i id' result hfinishing
      have hended := (end_steps .shutdown now fault h hfinishing).1
      change ((((m.endJob id' result now fault).setWorker worker .waiting).prune cfg stuck).jobs)[id]? =
        some j at hj
      -- what `prune` leaves is as it was when the job ended
      rcases prune_stateOf cfg stuck hended.keyed id with hsame | ⟨hgone, -⟩
      · rw [hsame] at hj
        unfold Manager.endJob Manager.setWorker at hj
        dsimp only at hj
        have hold := hupdate hj fun _ => rfl
        exact .inl hold
      · rw [Manager.stateOf, hj] at hgone
        cases hgone
    · exact .inl ⟨j, hj, rfl⟩

theorem mem_unfinished (hkeyed : ∀ (id : Uuid) (j : JobSummary), m.jobs[id]? = some j → j.id = id)
    {j : JobSummary} : j ∈ m.unfinished name ↔
      m.jobs[j.id]? = some j ∧ j.schedule = some name ∧ j.state.finished = false := by
  rw [Manager.unfinished, List.mem_filter, mem_jobList, decide_eq_true_eq]
  refine and_congr_left fun _ => ⟨fun h => ?_, fun h => ⟨j.id, h⟩⟩
  obtain ⟨id, hj⟩ := h
  rwa [hkeyed id j hj]

theorem unfinished_ids (hkeyed : ∀ (id : Uuid) (j : JobSummary), m.jobs[id]? = some j → j.id = id) :
    ((m.unfinished name).map JobSummary.id).Nodup := by
  refine List.pairwise_map.mpr (((jobList_ids hkeyed).filter _).imp fun hlt heq => ?_)
  rw [heq] at hlt
  exact BitVec.lt_irrefl _ hlt

/-- A job that is added is one more of its schedule. -/
theorem unfinished_add (hfresh : ∀ id ∈ ev.drawn, m.stateOf id = none)
    (hadds : ev.adds cfg m name = true) :
    ((m.step cfg ev).unfinished name).length = (m.unfinished name).length + 1 := by
  cases ev with
  | submit owner schedule spec id now fault =>
    obtain ⟨hname, haccepts⟩ := (Bool.and_eq_true ..).mp hadds
    obtain rfl := of_decide_eq_true hname
    have hnone : m.jobs[id]? = none := by
      simpa [Manager.stateOf] using hfresh id List.mem_cons_self
    rw [Manager.step, submit_eq, if_pos haccepts]
    -- the new job is one more, since its identifier is new
    have hperm : (jobList (m.jobs.insert id (Manager.queuedJob owner (some name) spec id now))).Perm
        (Manager.queuedJob owner (some name) spec id now :: jobList m.jobs) := by
      have hinsert := Std.TreeMap.toList_insert_perm (t := m.jobs) (k := id)
        (v := Manager.queuedJob owner (some name) spec id now)
      have hall : m.jobs.toList.filter (fun kv => decide ¬(id == kv.1) = true) = m.jobs.toList := by
        refine List.filter_eq_self.mpr fun kv hkv => decide_eq_true fun heq => ?_
        have hkv' := Std.TreeMap.mem_toList_iff_getElem?_eq_some.mp hkv
        rw [← eq_of_beq heq, hnone] at hkv'
        cases hkv'
      rw [hall] at hinsert
      exact hinsert.map Prod.snd
    have hcount := (hperm.filter fun j => j.schedule = some name ∧ j.state.finished = false).length_eq
    rw [List.filter_cons_of_pos (by simp [Manager.queuedJob, JobState.finished]), List.length_cons] at hcount
    exact hcount
  | _ => cases hadds

/-- Without it there are no more than before. -/
theorem unfinished_le (h : m.Invariant cfg) (hfresh : ∀ id ∈ ev.drawn, m.stateOf id = none)
    (hadds : ev.adds cfg m name = false) :
    ((m.step cfg ev).unfinished name).length ≤ (m.unfinished name).length := by
  obtain ⟨h', hmoves⟩ := step_steps h hfresh
  have hsubset : ((m.step cfg ev).unfinished name).map JobSummary.id ⊆
      (m.unfinished name).map JobSummary.id := by
    intro id hid
    obtain ⟨j, hj, rfl⟩ := List.mem_map.mp hid
    obtain ⟨hj, hname, hstate⟩ := (mem_unfinished h'.keyed).mp hj
    rcases step_schedule h hj with ⟨old, hold, hsame⟩ | ⟨owner, spec, now, fault, hev, haccepts⟩
    · have hmove := hmoves j.id
      have hnew : (m.step cfg ev).stateOf j.id = some j.state := stateOf_eq_some.mpr ⟨j, hj, rfl⟩
      have hwas : m.stateOf j.id = some old.state := stateOf_eq_some.mpr ⟨old, hold, rfl⟩
      rw [hnew, hwas] at hmove
      -- no step takes a job back to an unfinished state
      have hunfinished : old.state.finished = false := by
        generalize old.state = before at hmove ⊢
        generalize j.state = after at hmove hstate
        cases hmove with
        | same => exact hstate
        | started => rfl
        | cancelled => cases hstate
        | ended hfinished =>
          rw [hfinished] at hstate
          cases hstate
      have hin : old ∈ m.unfinished name := (mem_unfinished h.keyed).mpr
        ⟨(h.keyed _ old hold).symm ▸ hold, hsame.trans hname, hunfinished⟩
      exact List.mem_map.mpr ⟨old, hin, h.keyed _ old hold⟩
    · rw [hev, ManagerEvent.adds, hname] at hadds
      simp [haccepts] at hadds
  have hle := (List.subperm_of_subset (unfinished_ids h'.keyed) hsubset).length_le
  rwa [List.length_map, List.length_map] at hle

/-! ### Events of the service as events of the manager -/

namespace Service

/-- The submission of a schedule's job. -/
def submission (svc : Service) (s : Schedule) : ServiceEvent → Option ManagerEvent
  | .check id now fault | .runSchedule _ id now fault =>
    some (.submit svc.principal (some s.name) s.spec id now fault)
  | _ => none

/-- What the manager is asked in the event, if anything. -/
def managerEvent (cfg : ServiceConfig) (svc : Service) : ServiceEvent → Option ManagerEvent
  | .manager ev => some ev
  | sev => (svc.starts cfg sev).bind fun s => svc.submission s sev

/-- What the manager is asked in a run. -/
def trace (cfg : ServiceConfig) : Service → List ServiceEvent → List ManagerEvent
  | _, [] => []
  | svc, sev :: evs => (svc.managerEvent cfg sev).toList ++ trace cfg (svc.step cfg sev) evs

end Service

theorem start_manager (cfg : ServiceConfig) (svc : Service) (s : Schedule) (id : Uuid) (now : OffsetDateTime)
    (fault : Option String) :
    (svc.start cfg s id now fault).2.manager =
      svc.manager.step cfg (.submit svc.principal (some s.name) s.spec id now fault) := by
  rw [Service.start, Manager.step]
  split <;> rename_i heq <;> rw [heq]

/-- Outside `start` the threads leave the manager alone. -/
theorem step_manager :
    (svc.step cfg sev).manager = svc.manager.run cfg (svc.managerEvent cfg sev).toList := by
  cases sev with
  | manager ev => rfl
  | poll now fault =>
    rw [Service.step, Service.poll]
    split <;> rfl
  | check id now fault =>
    rw [Service.step, Service.check, Service.managerEvent, Service.starts]
    · split
      · rename_i polled state rest awaited hphase
        by_cases hunblocked : svc.unblocked awaited = true
        · rw [if_pos hunblocked]
          cases rest with
          | nil =>
            rw [hphase]
            rfl
          | cons s rest =>
            simp only [hphase, hunblocked, Bool.true_and, pollFindsDue]
            -- the schedule is started when it is due at the time of the poll
            cases hdue : nextDue s state[s.name]? polled with
            | none => rfl
            | some due =>
              dsimp only
              by_cases hpassed : polled ≥ due
              · rw [if_pos hpassed, if_pos (by simpa using hpassed)]
                have hmanager := start_manager cfg svc s id now fault
                split <;> rename_i hstart <;> rw [hstart] at hmanager <;> exact hmanager
              · rw [if_neg hpassed, if_neg (by simpa using hpassed)]
                rfl
        · rw [if_neg hunblocked]
          cases rest with
          | nil =>
            rw [hphase]
            rfl
          | cons s rest =>
            simp only [hphase, hunblocked, Bool.false_and]
            rfl
      · rename_i hphase
        cases hscheduler : svc.scheduler with
        | checking polled state rest awaited => exact absurd hscheduler (hphase polled state rest awaited)
        | sleeping => rfl
        | ended => rfl
    · intro ev h
      cases h
  | runSchedule name id now fault =>
    rw [Service.step, Service.runSchedule, Service.managerEvent, Service.starts]
    · split
      · rename_i hfind
        rw [hfind]
        rfl
      · rename_i s hfind
        rw [hfind]
        exact start_manager ..
    · intro ev h
      cases h
  | read call fault =>
    rw [Service.step, Service.read]
    split <;> rfl
  | save call now fault =>
    rw [Service.step, Service.save]
    split <;> rfl

theorem run_manager : (svc.run cfg evs).manager = svc.manager.run cfg (svc.trace cfg evs) := by
  induction evs generalizing svc with
  | nil => rfl
  | cons sev evs ih =>
    rw [Service.trace, run_append, ← step_manager]
    exact ih

theorem trace_append {evs' : List ServiceEvent} :
    svc.trace cfg (evs ++ evs') = svc.trace cfg evs ++ (svc.run cfg evs).trace cfg evs' := by
  induction evs generalizing svc with
  | nil => rfl
  | cons sev evs ih =>
    rw [List.cons_append, Service.trace, Service.trace, ih, List.append_assoc]
    rfl

theorem service_run_append {evs' : List ServiceEvent} :
    svc.run cfg (evs ++ evs') = (svc.run cfg evs).run cfg evs' := List.foldl_append

theorem managerEvent_drawn :
    (svc.managerEvent cfg sev).toList.flatMap ManagerEvent.drawn |>.Sublist sev.drawn := by
  have hsubmission {id : Uuid} {now : OffsetDateTime} {fault : Option String} (found : Option Schedule) :
      ((found.bind fun s => some (ManagerEvent.submit svc.principal (some s.name) s.spec id now
        fault)).toList.flatMap ManagerEvent.drawn).Sublist [id] := by
    cases found with
    | none => exact List.nil_sublist _
    | some s => exact .refl _
  cases sev with
  | manager ev =>
    change ([ev].flatMap ManagerEvent.drawn).Sublist ev.drawn
    rw [List.flatMap_singleton]
  | check id now fault => exact hsubmission _
  | runSchedule name id now fault => exact hsubmission _
  | _ => exact List.nil_sublist _

/-- The identifiers that are drawn are new. -/
structure Service.Fresh (svc : Service) (evs : List ServiceEvent) : Prop where
  nodup : (evs.flatMap ServiceEvent.drawn).Nodup
  unused : ∀ id ∈ evs.flatMap ServiceEvent.drawn, svc.manager.stateOf id = none

theorem Service.Fresh.manager (h : svc.Fresh evs) : svc.manager.Fresh (svc.trace cfg evs) := by
  have hsub (svc : Service) :
      ((svc.trace cfg evs).flatMap ManagerEvent.drawn).Sublist (evs.flatMap ServiceEvent.drawn) := by
    clear h
    induction evs generalizing svc with
    | nil => exact .refl _
    | cons sev evs ih =>
      rw [Service.trace, List.flatMap_append, List.flatMap_cons]
      exact managerEvent_drawn.append (ih _)
  exact ⟨h.nodup.sublist (hsub svc), fun id hid => h.unused id ((hsub svc).subset hid)⟩

/-! ### Runs of a schedule -/

/-- A job of the schedule is started by something other than a poll. -/
def ServiceEvent.startsElsewhere (name : String) : ServiceEvent → Bool
  | .manager (.submit _ schedule _ _ _ _) => schedule = some name
  | .runSchedule name' _ _ _ => name' = name
  | _ => false

/-- A poll finds the schedule due, and the manager takes its job. -/
def Service.pollStarts (cfg : ServiceConfig) (svc : Service) (name : String) : ServiceEvent → Bool
  | .check id now fault =>
    (svc.starts cfg (.check id now fault)).any (·.name = name) && svc.manager.accepts cfg fault
  | _ => false

theorem adds_eq (helse : sev.startsElsewhere name = false) :
    ((svc.managerEvent cfg sev).any fun ev => ev.adds cfg svc.manager name) =
      svc.pollStarts cfg name sev := by
  cases sev with
  | manager ev =>
    cases ev with
    | submit owner schedule spec id now fault =>
      have hother : decide (schedule = some name) = false := helse
      change (decide (schedule = some name) && _) = false
      rw [hother, Bool.false_and]
    | _ => rfl
  | check id now fault =>
    change ((((svc.starts cfg (.check id now fault)).bind fun s => some _).any _) : Bool) =
      ((svc.starts cfg (.check id now fault)).any _ && _)
    cases svc.starts cfg (.check id now fault) with
    | none => rfl
    | some s => simp [ManagerEvent.adds]
  | runSchedule name' id now fault =>
    -- another schedule is run
    have hother : name' ≠ name := of_decide_eq_false helse
    change ((((cfg.schedules.find? (·.name = name')).bind fun s => some _).any _) : Bool) = false
    cases hfind : cfg.schedules.find? (·.name = name') with
    | none => rfl
    | some s =>
      have hs : s.name = name' := by simpa using List.find?_some hfind
      simp [ManagerEvent.adds, hs, hother]
  | _ => rfl

/-- A poll that starts a job of the schedule makes one more, and nothing else makes more of them. -/
theorem step_unfinished {rest : List ManagerEvent} (h : svc.manager.Invariant cfg)
    (hfresh : svc.manager.Fresh ((svc.managerEvent cfg sev).toList ++ rest))
    (helse : sev.startsElsewhere name = false) :
    (svc.pollStarts cfg name sev = true →
      ((svc.step cfg sev).manager.unfinished name).length = (svc.manager.unfinished name).length + 1) ∧
    (svc.pollStarts cfg name sev = false →
      ((svc.step cfg sev).manager.unfinished name).length ≤ (svc.manager.unfinished name).length) := by
  rw [step_manager, ← adds_eq helse]
  cases hasked : svc.managerEvent cfg sev with
  | none => exact ⟨nofun, fun _ => le_rfl⟩
  | some ev =>
    rw [hasked] at hfresh
    exact ⟨unfinished_add hfresh.head, unfinished_le h hfresh.head⟩

/-- Over every run in which jobs of a schedule are started by polls only: they never pile up exactly if no
poll starts one while another is queued or running. -/
theorem scheduled_runs_never_pile_up_iff (cfg : ServiceConfig) (principal : String) (store : JobStore)
    (now : OffsetDateTime) (unsaved : List Uuid) (schedules : Option ScheduleState)
    (evs : List ServiceEvent)
    (hfresh : (Service.new cfg principal store now unsaved schedules).Fresh evs) (name : String)
    (hpolls : ∀ sev ∈ evs, sev.startsElsewhere name = false) :
    (∀ p, p <+: evs → (((Service.new cfg principal store now unsaved schedules).run cfg
        p).manager.unfinished name).length ≤ 1) ↔
      ∀ p sev, p ++ [sev] <+: evs →
        ((Service.new cfg principal store now unsaved schedules).run cfg p).pollStarts cfg name sev = true →
        ((Service.new cfg principal store now unsaved schedules).run cfg p).manager.unfinished name = [] := by
  have hnew : (Service.new cfg principal store now unsaved schedules).manager.Invariant cfg := new_invariant ..
  have hnone : (Service.new cfg principal store now unsaved schedules).manager.unfinished name = [] := by
    refine List.filter_eq_nil_iff.mpr fun j hj hunfinished => ?_
    obtain ⟨id, hj⟩ := mem_jobList.mp hj
    rw [decide_eq_true_eq, (new_states id j hj).2] at hunfinished
    cases hunfinished.2
  generalize Service.new cfg principal store now unsaved schedules = start at hfresh hnew hnone ⊢
  -- a poll that starts a job adds one, and no other step adds any
  have hstep (p : List ServiceEvent) (sev : ServiceEvent) (hp : p ++ [sev] <+: evs) :
      ((start.run cfg p).pollStarts cfg name sev = true →
        ((start.run cfg (p ++ [sev])).manager.unfinished name).length =
          ((start.run cfg p).manager.unfinished name).length + 1) ∧
      ((start.run cfg p).pollStarts cfg name sev = false →
        ((start.run cfg (p ++ [sev])).manager.unfinished name).length ≤
          ((start.run cfg p).manager.unfinished name).length) := by
    obtain ⟨rest, hsplit⟩ := hp
    have hmanager : start.manager.Fresh (start.trace cfg evs) := hfresh.manager
    rw [← hsplit, List.append_assoc, trace_append] at hmanager
    obtain ⟨hinv, hrest⟩ := run_invariant hnew hmanager
    rw [← run_manager] at hinv hrest
    rw [service_run_append]
    refine step_unfinished hinv hrest (hpolls sev ?_)
    rw [← hsplit]
    simp
  constructor
  · intro hone p sev hp hstarts
    have hmore := (hstep p sev hp).1 hstarts
    have hafter := hone (p ++ [sev]) hp
    exact List.eq_nil_of_length_eq_zero (by omega)
  · intro hidle p
    -- along the run: nothing is unfinished where a job is added
    induction p using List.reverseRecOn with
    | nil =>
      intro _
      change (start.manager.unfinished name).length ≤ 1
      rw [hnone]
      exact Nat.zero_le 1
    | append_singleton p sev ih =>
      intro hp
      have hbefore := ih ((List.prefix_append p [sev]).trans hp)
      cases hstarts : (start.run cfg p).pollStarts cfg name sev with
      | true =>
        have hmore := (hstep p sev hp).1 hstarts
        rw [hidle p sev hp hstarts] at hmore
        simp [hmore]
      | false => exact ((hstep p sev hp).2 hstarts).trans hbefore

/-- The hourly check is started at 01:00, and still queued at 02:00. -/
def pileUp : List ServiceEvent :=
  [.poll (onSep25 3600) false, .check 1 (onSep25 3600) none, .read 0 false, .save 0 (onSep25 3600) none,
    .check 2 (onSep25 3600) none, .check 3 (onSep25 3600) none, .poll (onSep25 7200) false,
    .check 4 (onSep25 7200) none]

theorem pileUp_fresh : hourlyService.Fresh pileUp := ⟨by decide, fun _ _ => rfl⟩

theorem pileUp_polls : ∀ sev ∈ pileUp, sev.startsElsewhere "hourly" = false := by decide

theorem scheduled_runs_never_pile_up_iff_sample :
    (∀ p, p <+: pileUp → ((hourlyService.run hourlyConfig p).manager.unfinished "hourly").length ≤ 1) ↔
      ∀ p sev, p ++ [sev] <+: pileUp →
        (hourlyService.run hourlyConfig p).pollStarts hourlyConfig "hourly" sev = true →
        (hourlyService.run hourlyConfig p).manager.unfinished "hourly" = [] :=
  scheduled_runs_never_pile_up_iff hourlyConfig "0" ⟨∅, ∅⟩ (onSep25 0) [] none pileUp pileUp_fresh "hourly"
    pileUp_polls

/-- Two jobs of one schedule wait in the queue. -/
theorem scheduled_runs_pile_up : ¬ ∀ (cfg : ServiceConfig) (principal : String) (store : JobStore)
    (now : OffsetDateTime) (unsaved : List Uuid) (schedules : Option ScheduleState)
    (evs : List ServiceEvent), cfg.validate = .ok () →
      (Service.new cfg principal store now unsaved schedules).Fresh evs → ∀ name : String,
        (∀ sev ∈ evs, sev.startsElsewhere name = false) →
        (((Service.new cfg principal store now unsaved schedules).run cfg evs).manager.unfinished
          name).length ≤ 1 := by
  intro h
  have hsample := h hourlyConfig "0" ⟨∅, ∅⟩ (onSep25 0) [] none pileUp rfl pileUp_fresh "hourly" pileUp_polls
  revert hsample
  decide

end AbyssalWarden
