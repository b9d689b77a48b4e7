import AbyssalWarden.SavedReports
import AbyssalWarden.ScheduledRuns
import AbyssalWarden.JobHistory

/-! What clients that are no administrators learn of the jobs of others, and what they can change. -/
namespace AbyssalWarden

open Manager

variable {cfg : ServiceConfig} {m m' : Manager} {ctx ctx' : Ctx} {lib : Serde} {peer : Peer} {world world' : Surroundings}
  {id : Uuid} {caller : Caller} {owner : String}

/-! ### Jobs are stored under their identifiers -/

def Manager.Keyed (m : Manager) : Prop := ∀ (id : Uuid) (j : JobSummary), m.jobs[id]? = some j → j.id = id

theorem updateJob_keyed (h : m.Keyed) {f : JobSummary → JobSummary} {fault : Option String}
    (hf : ∀ j, (f j).id = j.id) : (m.updateJob id f fault).Keyed := by
  obtain ⟨jobs, store, heq, hjobs⟩ := updateJob_eq m id f fault
  rw [heq]
  exact hjobs.keyed hf h

theorem submit_keyed (h : m.Keyed) {schedule : Option String} {spec : JobSpec} {now : OffsetDateTime}
    {fault : Option String} : (m.submit cfg owner schedule spec id now fault).2.Keyed := by
  unfold Manager.submit
  split
  · exact h
  · split
    · exact h
    · cases fault with
      | some e => exact h
      | none =>
        intro id' j hj
        simp only [JobStore.saveJob, Manager.enqueue, Manager.queuedJob, getElem?_insert_ite] at hj
        split at hj
        · rename_i heq
          obtain rfl := Option.some.inj hj
          exact heq.symm
        · exact h id' j hj

theorem step_keyed (h : m.Keyed) (ev : ManagerEvent) : (m.step cfg ev).Keyed := by
  cases ev with
  | submit owner schedule spec id now fault => exact submit_keyed h
  | cancel id now fault =>
    rw [Manager.step, Manager.cancel]
    split
    · exact h
    · split
      -- the queue and the specs change, the jobs do not
      · have hsame : ({ m with queue := m.queue.erase id, specs := m.specs.erase id } : Manager).Keyed := h
        exact updateJob_keyed hsame fun _ => rfl
      · exact h
  | shutdown => exact h
  | take worker now fault =>
    rw [Manager.step, Manager.take]
    split
    · split
      · exact h
      · cases hpop : popJob m.specs m.queue with
        | mk found queue =>
          cases found with
          | none => exact h
          | some job =>
            obtain ⟨id, spec⟩ := job
            have hsame : ({ m with
                queue := queue
                specs := m.specs.erase id
                cancels := m.cancels.insert id false } : Manager).Keyed := h
            have hupdated := @updateJob_keyed _ id hsame
              (fun j => { j with state := .running, startedAt := some now }) fault fun _ => rfl
            exact hupdated
    · exact h
  | execute worker x =>
    rw [Manager.step, Manager.execute]
    split <;> exact h
  | finish worker now fault stuck =>
    rw [Manager.step, Manager.finish]
    split
    · rename_i id result hfinishing
      have hsame : ({ m with cancels := m.cancels.erase id } : Manager).Keyed := h
      have hended : (m.endJob id result now fault).Keyed := updateJob_keyed hsame fun _ => rfl
      intro id' j hj
      -- then old jobs are pruned
      exact prune_keyed hended id' j hj
    · exact h

theorem run_keyed (h : m.Keyed) (evs : List ManagerEvent) : (m.run cfg evs).Keyed := by
  induction evs generalizing m with
  | nil => exact h
  | cons ev evs ih => exact ih (step_keyed h ev)

/-- The state of the service after some run. -/
def Service.Reached (cfg : ServiceConfig) (svc : Service) : Prop :=
  ∃ principal store now unsaved schedules evs,
    svc = (Service.new cfg principal store now unsaved schedules).run cfg evs

theorem Service.Reached.keyed {svc : Service} (h : svc.Reached cfg) : svc.manager.Keyed := by
  obtain ⟨principal, store, now, unsaved, schedules, evs, rfl⟩ := h
  rw [run_manager]
  refine run_keyed ?_ _
  intro id j hj
  exact (new_states id j hj).1

/-! ### What a caller sees -/

/-- The job is there, and it is the owner's. -/
def Manager.Owns (m : Manager) (owner : String) (id : Uuid) : Prop := ∃ j, m.jobs[id]? = some j ∧ j.owner = owner

/-- The job, if the caller may see it. -/
def Manager.visible (m : Manager) (caller : Caller) (id : Uuid) : Option JobSummary :=
  m.jobs[id]?.filter fun j => canAccessJob caller j.owner

/-- The two states agree on the jobs of the owner: their summaries, their reports, and whether they wait or
run. -/
structure Manager.Agree (owner : String) (m m' : Manager) : Prop where
  jobs : ∀ (id : Uuid) (j : JobSummary), j.owner = owner → (m.jobs[id]? = some j ↔ m'.jobs[id]? = some j)
  reports : ∀ id, m.Owns owner id → m.store.reports[id]? = m'.store.reports[id]?
  queued : ∀ id, m.Owns owner id → (id ∈ m.queue ↔ id ∈ m'.queue)
  cancels : ∀ id, m.Owns owner id → (id ∈ m.cancels ↔ id ∈ m'.cancels)

theorem canAccessJob_iff (hadmin : caller.admin = false) : canAccessJob caller owner = true ↔ owner = caller.principal := by
  rw [canAccessJob, hadmin, Bool.false_or, decide_eq_true_eq, eq_comm]

theorem visible_eq_some {j : JobSummary} :
    m.visible caller id = some j ↔ m.jobs[id]? = some j ∧ canAccessJob caller j.owner = true := by
  rw [Manager.visible, Option.filter_eq_some_iff]

theorem visible_owns (hadmin : caller.admin = false) {j : JobSummary} (h : m.visible caller id = some j) :
    m.Owns caller.principal id := by
  obtain ⟨hj, hsee⟩ := visible_eq_some.mp h
  exact ⟨j, hj, (canAccessJob_iff hadmin).mp hsee⟩

/-- A job of another owner is as little there as one that does not exist. -/
theorem visible_eq_none (hadmin : caller.admin = false) (h : ¬ m.Owns caller.principal id) :
    m.visible caller id = none := by
  cases hvisible : m.visible caller id with
  | none => rfl
  | some j => exact absurd (visible_owns hadmin hvisible) h

theorem Manager.Agree.visible (h : m.Agree caller.principal m') (hadmin : caller.admin = false) :
    m.visible caller id = m'.visible caller id := by
  refine Option.ext fun j => ?_
  rw [visible_eq_some, visible_eq_some, canAccessJob_iff hadmin]
  constructor
  · intro hj
    exact ⟨(h.jobs id j hj.2).mp hj.1, hj.2⟩
  · intro hj
    exact ⟨(h.jobs id j hj.2).mpr hj.1, hj.2⟩

/-- Maps that agree on the values of a kind list these in the same order. -/
theorem filter_toList_eq {β : Type} {t t' : Std.TreeMap Uuid β} (keep : β → Bool)
    (h : ∀ (k : Uuid) v, keep v = true → (t[k]? = some v ↔ t'[k]? = some v)) :
    t.toList.filter (fun e => keep e.2) = t'.toList.filter (fun e => keep e.2) := by
  have hlt (a b : Uuid × β) : compare a.1 b.1 = .lt ↔ a.1 < b.1 := compareOfLessAndEq_eq_lt
  have hantisymm : Std.Antisymm fun a b : Uuid × β => compare a.1 b.1 = .lt := by
    refine ⟨fun a b hab hba => ?_⟩
    exact absurd ((hlt b a).mp hba) (BitVec.lt_asymm ((hlt a b).mp hab))
  have hirrefl : Std.Irrefl fun a b : Uuid × β => compare a.1 b.1 = .lt :=
    ⟨fun a haa => BitVec.lt_irrefl _ ((hlt a a).mp haa)⟩
  refine List.Pairwise.eq_of_mem_iff (Std.TreeMap.ordered_keys_toList.filter _)
    (Std.TreeMap.ordered_keys_toList.filter _) fun e => ?_
  rw [List.mem_filter, List.mem_filter, Std.TreeMap.mem_toList_iff_getElem?_eq_some,
    Std.TreeMap.mem_toList_iff_getElem?_eq_some]
  constructor
  · intro he
    exact ⟨(h e.1 e.2 he.2).mp he.1, he.2⟩
  · intro he
    exact ⟨(h e.1 e.2 he.2).mpr he.1, he.2⟩

theorem Manager.Agree.list (h : m.Agree caller.principal m') (hadmin : caller.admin = false) :
    (m.list fun j => canAccessJob caller j.owner) = m'.list fun j => canAccessJob caller j.owner := by
  have hfilter : (jobList m.jobs).filter (fun j => canAccessJob caller j.owner) =
      (jobList m'.jobs).filter fun j => canAccessJob caller j.owner := by
    rw [jobList, jobList, List.filter_map, List.filter_map]
    refine congrArg (List.map Prod.snd) (filter_toList_eq (fun j : JobSummary => canAccessJob caller j.owner) fun id j hj => ?_)
    exact h.jobs id j ((canAccessJob_iff hadmin).mp hj)
  rw [Manager.list, Manager.list, hfilter]

/-! ### Requests about jobs -/

/-- The requests about jobs that exist already. -/
inductive Op.AboutJobs : Op → Prop where
  | jobs : AboutJobs .jobs
  | job (id : Uuid) : AboutJobs (.job id)
  | report (id : Uuid) : AboutJobs (.report id)
  | cancel (id : Uuid) : AboutJobs (.cancel id)

theorem execute_job : ctx.execute lib peer world (.job id) =
    match ctx.service.manager.visible peer.caller id with
    | some j => (some (.ok (.job j)), ctx)
    | none => (some (.error notFound), ctx) := by
  rw [Ctx.execute, Manager.visible]
  cases ctx.service.manager.jobs[id]? with
  | none => rfl
  | some j => cases hsee : canAccessJob peer.caller j.owner <;> simp [Option.filter, hsee]

theorem execute_report : ctx.execute lib peer world (.report id) =
    match ctx.service.manager.visible peer.caller id with
    | some _ =>
      match ctx.service.manager.report lib id world.reportUnread with
      | .error e => (some (.error (internal e)), ctx)
      | .ok (some report) => (some (.ok (.report id report)), ctx)
      | .ok none => (some (.error ⟨.notFound, "no report: the job has not finished, or it failed"⟩), ctx)
    | none => (some (.error notFound), ctx) := by
  rw [Ctx.execute, Manager.visible]
  cases ctx.service.manager.jobs[id]? with
  | none => rfl
  | some j =>
    cases hsee : canAccessJob peer.caller j.owner with
    | false => simp [Option.filter, hsee]
    | true =>
      have hvisible : (some j).filter (fun j => canAccessJob peer.caller j.owner) = some j := by
        simp [Option.filter, hsee]
      rw [hvisible]
      exact if_pos hsee

theorem execute_cancel : ctx.execute lib peer world (.cancel id) =
    match ctx.service.manager.visible peer.caller id with
    | some _ => ctx.cancel world id
    | none => (some (.error notFound), ctx) := by
  rw [Ctx.execute, Manager.visible]
  cases ctx.service.manager.jobs[id]? with
  | none => rfl
  | some j => cases hsee : canAccessJob peer.caller j.owner <;> simp [Option.filter, hsee]

theorem cancel_result (m : Manager) (id : Uuid) (now : OffsetDateTime) (fault : Option String) :
    (m.cancel id now fault).1 =
      if m.cancels.contains id || m.queue.contains id then .ok ()
      else .error ⟨.notFound, "the job is not queued or running"⟩ := by
  unfold Manager.cancel
  cases m.cancels.contains id <;> cases m.queue.contains id <;> rfl

theorem Ctx.cancel_reply : (ctx.cancel world id).1 = some ((ctx.service.manager.cancel id world.now
    world.unsaved).1.map fun () => .done ("cancelling job " ++ id.text)) := by
  rw [Ctx.cancel]
  split <;> rename_i heq <;> rw [heq] <;> rfl

theorem Ctx.cancel_state : (ctx.cancel world id).2 =
    ctx.withManager (ctx.service.manager.cancel id world.now world.unsaved).2 := by
  rw [Ctx.cancel]
  split <;> rename_i heq <;> rw [heq]

theorem Manager.Agree.cancel_result {now now' : OffsetDateTime} {fault fault' : Option String}
    (h : m.Agree owner m') (howns : m.Owns owner id) :
    (m.cancel id now fault).1 = (m'.cancel id now' fault').1 := by
  have hcancels : m.cancels.contains id = m'.cancels.contains id := by
    rw [Bool.eq_iff_iff, ← Std.TreeMap.mem_iff_contains, ← Std.TreeMap.mem_iff_contains]
    exact h.cancels id howns
  have hqueue : m.queue.contains id = m'.queue.contains id := by
    rw [Bool.eq_iff_iff, List.contains_iff_mem, List.contains_iff_mem]
    exact h.queued id howns
  rw [AbyssalWarden.cancel_result, AbyssalWarden.cancel_result, hcancels, hqueue]

/-- In states that agree on the jobs of the caller a request about jobs has the same reply. -/
theorem execute_agrees {op : Op} (hop : op.AboutJobs) (hadmin : peer.caller.admin = false)
    (h : ctx.service.manager.Agree peer.caller.principal ctx'.service.manager)
    (hfile : world.reportUnread = world'.reportUnread) :
    (ctx.execute lib peer world op).1 = (ctx'.execute lib peer world' op).1 := by
  cases hop with
  | jobs => rw [Ctx.execute, Ctx.execute, h.list hadmin]
  | job id =>
    rw [execute_job, execute_job, ← h.visible hadmin]
    cases ctx.service.manager.visible peer.caller id <;> rfl
  | report id =>
    rw [execute_report, execute_report, ← h.visible hadmin]
    -- a job that the caller sees is the caller's own
    cases hvisible : ctx.service.manager.visible peer.caller id with
    | none => rfl
    | some j =>
      have hreport : ctx.service.manager.report lib id world.reportUnread =
          ctx'.service.manager.report lib id world'.reportUnread := by
        rw [Manager.report, Manager.report, h.reports id (visible_owns hadmin hvisible), hfile]
      simp only [hreport]
      split <;> rfl
  | cancel id =>
    rw [execute_cancel, execute_cancel, ← h.visible hadmin]
    cases hvisible : ctx.service.manager.visible peer.caller id with
    | none => rfl
    | some j =>
      simp only [Ctx.cancel_reply]
      rw [h.cancel_result (visible_owns hadmin hvisible)]

/-! ### What a request changes -/

/-- Everything is as before but the jobs of the owner; the others keep their places in the queue. -/
structure Manager.ChangesOnly (owner : String) (m m' : Manager) : Prop where
  jobs : ∀ id, ¬ m.Owns owner id → m'.jobs[id]? = m.jobs[id]?
  specs : ∀ id, ¬ m.Owns owner id → m'.specs[id]? = m.specs[id]?
  cancels : ∀ id, ¬ m.Owns owner id → m'.cancels[id]? = m.cancels[id]?
  records : ∀ id, ¬ m.Owns owner id → m'.store.jobs[id]? = m.store.jobs[id]?
  reports : m'.store.reports = m.store.reports
  queue : ∀ keep : Uuid → Bool, (∀ id, m.Owns owner id → keep id = false) → m'.queue.filter keep = m.queue.filter keep
  workers : m'.workers = m.workers
  shutdown : m'.shutdown = m.shutdown

theorem Manager.ChangesOnly.refl (owner : String) (m : Manager) : m.ChangesOnly owner m :=
  ⟨fun _ _ => rfl, fun _ _ => rfl, fun _ _ => rfl, fun _ _ => rfl, rfl, fun _ _ => rfl, rfl, rfl⟩

theorem filter_erase_of_false {α : Type} [BEq α] [LawfulBEq α] {keep : α → Bool} {a : α} (ha : keep a = false)
    (l : List α) : (l.erase a).filter keep = l.filter keep := by
  induction l with
  | nil => rfl
  | cons b l ih =>
    rw [List.erase_cons]
    split
    · rename_i heq
      rw [eq_of_beq heq, List.filter_cons_of_neg (by simp [ha])]
    · rw [List.filter_cons, List.filter_cons, ih]

theorem cancel_changesOnly (hkeyed : m.Keyed) (howns : m.Owns owner id) (now : OffsetDateTime)
    (fault : Option String) : m.ChangesOnly owner (m.cancel id now fault).2 := by
  -- the job that is cancelled belongs to the owner
  have hne {id' : Uuid} (h : ¬ m.Owns owner id') : id' ≠ id := by
    intro heq
    exact h (heq ▸ howns)
  unfold Manager.cancel
  split
  · refine ⟨fun _ _ => rfl, fun _ _ => rfl, fun id' h => ?_, fun _ _ => rfl, rfl, fun _ _ => rfl, rfl, rfl⟩
    rw [getElem?_insert_ite, if_neg (hne h)]
  · split
    · obtain ⟨j, hj, hjowner⟩ := howns
      have hid : j.id = id := hkeyed id j hj
      simp only [Manager.updateJob, hj]
      refine ⟨fun id' h => ?_, fun id' h => ?_, fun _ _ => rfl, fun id' h => ?_, trySaveJob_reports .., ?_, rfl, rfl⟩
      · rw [getElem?_insert_ite, if_neg (hne h)]
      · rw [getElem?_erase_ite, if_neg (hne h)]
      · cases fault with
        | some e => rfl
        | none =>
          simp only [JobStore.trySaveJob, JobStore.saveJob, hid]
          rw [getElem?_insert_ite, if_neg (hne h)]
      · intro keep hkeep
        exact filter_erase_of_false (hkeep id ⟨j, hj, hjowner⟩) _
    · exact Manager.ChangesOnly.refl owner m

/-- A request about jobs changes nothing but the manager, and there only jobs of the caller. -/
theorem execute_changesOnly {op : Op} (hop : op.AboutJobs) (hadmin : peer.caller.admin = false)
    (hkeyed : ctx.service.manager.Keyed) :
    ∃ m, (ctx.execute lib peer world op).2 = ctx.withManager m ∧
      ctx.service.manager.ChangesOnly peer.caller.principal m := by
  -- a request that only reads
  have hsame : ∃ m, ctx = ctx.withManager m ∧ ctx.service.manager.ChangesOnly peer.caller.principal m :=
    ⟨ctx.service.manager, rfl, Manager.ChangesOnly.refl _ _⟩
  cases hop with
  | jobs => exact hsame
  | job id =>
    rw [execute_job]
    cases ctx.service.manager.visible peer.caller id <;> exact hsame
  | report id =>
    rw [execute_report]
    cases ctx.service.manager.visible peer.caller id with
    | none => exact hsame
    | some j =>
      simp only
      split <;> exact hsame
  | cancel id =>
    rw [execute_cancel]
    cases hvisible : ctx.service.manager.visible peer.caller id with
    | none => exact hsame
    | some j =>
      refine ⟨_, Ctx.cancel_state, ?_⟩
      exact cancel_changesOnly hkeyed (visible_owns hadmin hvisible) _ _

/-- For a caller that is no administrator, a request about jobs has the same reply in every two states that agree
on the jobs of the caller. It changes nothing but these jobs, and the identifier of a job of someone else does what
one does that was never drawn. -/
theorem non_admin_isolated (lib : Serde) (ctx ctx' : Ctx) (peer : Peer) (world world' : Surroundings) (req : Request)
    (hreached : ctx.service.Reached ctx.cfg) (hadmin : peer.caller.admin = false) (hop : req.op.AboutJobs)
    (hagree : ctx.service.manager.Agree peer.caller.principal ctx'.service.manager)
    (hfile : world.reportUnread = world'.reportUnread) :
    (ctx.dispatch lib peer world req).1 = (ctx'.dispatch lib peer world' req).1 ∧
    (∃ m, (ctx.dispatch lib peer world req).2 = ctx.withManager m ∧
      ctx.service.manager.ChangesOnly peer.caller.principal m) ∧
    ∀ op ∈ [Op.job, Op.report, Op.cancel], ∀ id id' : Uuid, ¬ ctx.service.manager.Owns peer.caller.principal id →
      ctx.service.manager.jobs[id']? = none →
        ctx.dispatch lib peer world ⟨req.version, req.id, op id⟩ =
          ctx.dispatch lib peer world ⟨req.version, req.id, op id'⟩ := by
  refine ⟨?_, ?_, fun op hmem id id' hother hnone => ?_⟩
  -- the reply depends on the caller's own jobs
  · have hreply : (ctx.execute lib peer world req.op).1 = (ctx'.execute lib peer world' req.op).1 :=
      execute_agrees hop hadmin hagree hfile
    simp only [Ctx.dispatch]
    split
    · rfl
    · simp only [hreply]
  · simp only [Ctx.dispatch]
    split
    · exact ⟨ctx.service.manager, rfl, Manager.ChangesOnly.refl _ _⟩
    · exact execute_changesOnly hop hadmin hreached.keyed
  -- a job of someone else is as little seen as one that does not exist
  · have hunseen : ctx.service.manager.visible peer.caller id = none := visible_eq_none hadmin hother
    have habsent : ctx.service.manager.visible peer.caller id' = none := by
      rw [Manager.visible, hnone]
      rfl
    have hexecute : ctx.execute lib peer world (op id) = ctx.execute lib peer world (op id') := by
      simp only [List.mem_cons, List.not_mem_nil, or_false] at hmem
      obtain rfl | rfl | rfl := hmem
      · rw [execute_job, execute_job, hunseen, habsent]
      · rw [execute_report, execute_report, hunseen, habsent]
      · rw [execute_cancel, execute_cancel, hunseen, habsent]
    have hvalid : Request.validate lib.debug ⟨req.version, req.id, op id⟩ =
        Request.validate lib.debug ⟨req.version, req.id, op id'⟩ := by
      simp only [List.mem_cons, List.not_mem_nil, or_false] at hmem
      obtain rfl | rfl | rfl := hmem <;> rfl
    have hauth : authorize peer.caller (op id) = authorize peer.caller (op id') := by
      simp only [List.mem_cons, List.not_mem_nil, or_false] at hmem
      obtain rfl | rfl | rfl := hmem <;> rfl
    simp only [Ctx.dispatch, hvalid, hauth, hexecute]

/-! ### A sample -/

def userPeer : Peer := ⟨⟨"1000", false⟩, 1000, 1000⟩

/-- A job of a user, and then one of the service. -/
def userService : Service :=
  hourlyService.run hourlyConfig [.manager (.submit "1000" none sampleSpec 3 (onSep25 10) none)]

def sharedService : Service :=
  hourlyService.run hourlyConfig [.manager (.submit "1000" none sampleSpec 3 (onSep25 10) none),
    .manager (.submit "0" none sampleSpec 5 (onSep25 20) none)]

theorem sharedService_agree : sharedService.manager.Agree "1000" userService.manager := by
  have hjobs (id : Uuid) : sharedService.manager.jobs[id]? =
      if id = 5 then some (queuedJob "0" none sampleSpec 5 (onSep25 20)) else userService.manager.jobs[id]? := by
    change (userService.manager.jobs.insert 5 _)[id]? = _
    rw [getElem?_insert_ite]
  have huser (id : Uuid) : userService.manager.jobs[id]? =
      if id = 3 then some (queuedJob "1000" none sampleSpec 3 (onSep25 10)) else none := by
    change ((∅ : Std.TreeMap Uuid JobSummary).insert 3 _)[id]? = _
    rw [getElem?_insert_ite, Std.TreeMap.getElem?_emptyc]
  -- job 5 belongs to root
  have howns (id : Uuid) (h : sharedService.manager.Owns "1000" id) : id = 3 := by
    obtain ⟨j, hj, howner⟩ := h
    rw [hjobs, huser] at hj
    split at hj
    · cases hj
      exact absurd howner (by decide)
    · split at hj
      · rename_i heq
        exact heq
      · cases hj
  refine ⟨fun id j howner => ?_, fun id h => ?_, fun id h => ?_, fun id h => ?_⟩
  · rw [hjobs]
    split
    · rename_i heq
      rw [huser, heq]
      constructor
      · intro hj
        cases hj
        exact absurd howner (by decide)
      · intro hj
        have hne : (5 : Uuid) ≠ 3 := by decide
        rw [if_neg hne] at hj
        cases hj
    · exact Iff.rfl
  · rfl
  · rw [howns id h]
    decide
  · rw [howns id h]
    decide

theorem non_admin_isolated_sample :
    ((serving hourlyConfig sharedService).dispatch quotingSerde userPeer noStore ⟨protocolVersion, 7, .cancel 3⟩).1 =
      ((serving hourlyConfig userService).dispatch quotingSerde userPeer noStore ⟨protocolVersion, 7, .cancel 3⟩).1 :=
  (non_admin_isolated quotingSerde (serving hourlyConfig sharedService) (serving hourlyConfig userService) userPeer
    noStore noStore ⟨protocolVersion, 7, .cancel 3⟩ ⟨"0", ⟨∅, ∅⟩, onSep25 0, [], none, _, rfl⟩ rfl (.cancel 3)
    sharedService_agree rfl).1

end AbyssalWarden
