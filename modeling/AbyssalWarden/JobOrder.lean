import AbyssalWarden.ScheduledRuns

/-! Jobs start in the order in which they were accepted, each with the specification it was submitted with: none is
lost or starts twice, and none overtakes another. -/
namespace AbyssalWarden

open Manager

variable {cfg : ServiceConfig} {m : Manager} {ev : ManagerEvent} {evs : List ManagerEvent} {id : Uuid}
  {spec : JobSpec}

namespace Manager

/-- The jobs that wait, in the order of the queue. -/
def waiting (m : Manager) : List (Uuid × JobSpec) := m.queue.filterMap fun id => m.specs[id]?.map (Prod.mk id)

/-- The job that is accepted in the event: its submitter is told its identifier. -/
def accepted (cfg : ServiceConfig) (m : Manager) : ManagerEvent → List (Uuid × JobSpec)
  | .submit owner schedule spec id now fault =>
    match (m.submit cfg owner schedule spec id now fault).1 with
    | .ok id => [(id, spec)]
    | .error _ => []
  | _ => []

/-- The job that a worker starts in the event. -/
def started (m : Manager) : ManagerEvent → List (Uuid × JobSpec)
  | .take worker _ _ =>
    match m.workers[worker]? with
    | some .waiting => if m.shutdown then [] else (popJob m.specs m.queue).1.toList
    | _ => []
  | _ => []

/-- The job that leaves the queue in the event without being started. -/
def withdrawn (m : Manager) : ManagerEvent → List Uuid
  | .cancel id _ _ => if m.cancels.contains id then [] else if m.queue.contains id then [id] else []
  | _ => []

/-- What the events of a run amount to, one after the other. -/
def collect {α : Type} (cfg : ServiceConfig) (f : Manager → ManagerEvent → List α) :
    Manager → List ManagerEvent → List α
  | _, [] => []
  | m, ev :: evs => f m ev ++ collect cfg f (m.step cfg ev) evs

end Manager

/-! ### The queue -/

theorem accepted_submit {owner : String} {schedule : Option String} {now : OffsetDateTime} {fault : Option String} :
    m.accepted cfg (.submit owner schedule spec id now fault) =
      if m.accepts cfg fault then [(id, spec)] else [] := by
  unfold Manager.accepted Manager.submit Manager.accepts
  by_cases hdown : m.shutdown = true
  · simp [hdown]
  · by_cases hfull : m.queue.length ≥ cfg.maxQueuedJobs
    · have hnot : ¬ m.queue.length < cfg.maxQueuedJobs := by omega
      simp [hdown, hfull, hnot]
    · have hroom : m.queue.length < cfg.maxQueuedJobs := by omega
      cases fault <;> simp [hdown, hfull, hroom, JobStore.saveJob]

/-- The specifications of other jobs do not matter. -/
theorem waiting_congr {specs : Std.TreeMap Uuid JobSpec} {queue : List Uuid}
    (h : ∀ id ∈ queue, specs[id]? = m.specs[id]?) :
    (queue.filterMap fun id => specs[id]?.map (Prod.mk id)) =
      queue.filterMap fun id => m.specs[id]?.map (Prod.mk id) := by
  apply List.filterMap_congr
  intro id hid
  rw [h id hid]

theorem updateJob_waiting {f : JobSummary → JobSummary} {fault : Option String} :
    (m.updateJob id f fault).waiting = m.waiting := by
  obtain ⟨jobs, store, heq, -⟩ := updateJob_eq m id f fault
  rw [heq]
  rfl

@[simp] theorem setWorker_waiting {worker : ℕ} {w : Worker} : (m.setWorker worker w).waiting = m.waiting := rfl

/-- The job that is taken has its specification. -/
theorem popJob_spec {specs : Std.TreeMap Uuid JobSpec} {queue rest : List Uuid}
    (h : popJob specs queue = (some (id, spec), rest)) : specs[id]? = some spec := by
  induction queue with
  | nil => cases h
  | cons first queue ih =>
    rw [popJob] at h
    split at h
    · rename_i spec' hspec
      cases h
      exact hspec
    · exact ih h

/-- What becomes of the jobs that wait: some leave the queue at its head, some are withdrawn, some are added at its
end. -/
structure Manager.Passes (cfg : ServiceConfig) (m : Manager) (ev : ManagerEvent) : Prop where
  waiting : m.started ev ++ (m.step cfg ev).waiting =
    (m.waiting ++ m.accepted cfg ev).filter fun j => j.1 ∉ m.withdrawn ev
  withdrawn : ∀ id ∈ m.withdrawn ev, id ∈ m.queue
  started : ∀ j ∈ m.started ev, j.1 ∈ m.queue ∧ j.1 ∉ (m.step cfg ev).queue

theorem submit_passes {owner : String} {schedule : Option String} {now : OffsetDateTime} {fault : Option String}
    (h : m.Invariant cfg) (hfresh : m.stateOf id = none) :
    m.Passes cfg (.submit owner schedule spec id now fault) := by
  refine ⟨?_, fun id hid => absurd hid List.not_mem_nil, fun j hj => absurd hj List.not_mem_nil⟩
  have hkeep (l : List (Uuid × JobSpec)) :
      l.filter (fun j => j.1 ∉ m.withdrawn (.submit owner schedule spec id now fault)) = l :=
    List.filter_eq_self.mpr fun j _ => decide_eq_true List.not_mem_nil
  rw [hkeep, Manager.step, submit_eq]
  by_cases haccepts : m.accepts cfg fault = true
  · have hnot : id ∉ m.queue := by simp [(h.placed id).queue, hfresh]
    have hold : (m.queue.filterMap fun id' => (m.specs.insert id spec)[id']?.map (Prod.mk id')) = m.waiting := by
      refine waiting_congr fun id' hid' => ?_
      rw [getElem?_insert_ite, if_neg]
      rintro rfl
      exact hnot hid'
    rw [if_pos haccepts]
    change List.filterMap (fun id' => (m.specs.insert id spec)[id']?.map (Prod.mk id')) (m.queue ++ [id]) =
      m.waiting ++ m.accepted cfg (.submit owner schedule spec id now fault)
    rw [List.filterMap_append, hold, accepted_submit, if_pos haccepts]
    simp
  · rw [if_neg haccepts, accepted_submit, if_neg haccepts, List.append_nil]
    rfl

theorem cancel_passes {now : OffsetDateTime} {fault : Option String} (h : m.Invariant cfg) :
    m.Passes cfg (.cancel id now fault) := by
  have hstep : (m.step cfg (.cancel id now fault)).waiting =
      m.waiting.filter fun j => j.1 ∉ m.withdrawn (.cancel id now fault) := by
    rw [Manager.step, Manager.cancel, Manager.withdrawn]
    split_ifs with hflag hqueue
    · exact (List.filter_eq_self.mpr fun j _ => decide_eq_true List.not_mem_nil).symm
    · dsimp only
      rw [updateJob_waiting]
      change List.filterMap (fun id' => (m.specs.erase id)[id']?.map (Prod.mk id')) (m.queue.erase id) = _
      -- removing a job from the queue keeps the order of the others
      rw [h.nodup.erase_eq_filter, Manager.waiting, List.filter_filterMap, List.filterMap_filter]
      apply List.filterMap_congr
      intro id' _
      rw [getElem?_erase_ite]
      by_cases heq : id' = id
      · subst heq
        cases m.specs[id']? <;> simp [Option.filter]
      · cases m.specs[id']? <;> simp [Option.filter, heq]
    · exact (List.filter_eq_self.mpr fun j _ => decide_eq_true List.not_mem_nil).symm
  refine ⟨?_, fun id' hid' => ?_, fun j hj => absurd hj List.not_mem_nil⟩
  · have hnone : m.accepted cfg (.cancel id now fault) = [] := rfl
    rw [hnone, List.append_nil, ← hstep]
    rfl
  · rw [Manager.withdrawn] at hid'
    split_ifs at hid' with hflag hqueue
    · cases hid'
    · obtain rfl := List.mem_singleton.mp hid'
      exact List.contains_iff_mem.mp hqueue
    · cases hid'

/-- The job that starts is the first of the queue. -/
theorem start_passes {worker : ℕ} {now : OffsetDateTime} {fault : Option String} {queue : List Uuid}
    (h : m.Invariant cfg) (hqueue : m.queue = id :: queue) (hspec : m.specs[id]? = some spec)
    (hstarted : m.started (.take worker now fault) = [(id, spec)])
    (hwaiting : (m.step cfg (.take worker now fault)).waiting =
      queue.filterMap fun id' => (m.specs.erase id)[id']?.map (Prod.mk id'))
    (hafter : (m.step cfg (.take worker now fault)).queue = queue) : m.Passes cfg (.take worker now fault) := by
  have hnodup : (id :: queue).Nodup := hqueue ▸ h.nodup
  -- the specs of the others are still there
  have hrest : (queue.filterMap fun id' => (m.specs.erase id)[id']?.map (Prod.mk id')) =
      queue.filterMap fun id' => m.specs[id']?.map (Prod.mk id') := by
    refine waiting_congr fun id' hid' => ?_
    rw [getElem?_erase_ite, if_neg]
    rintro rfl
    exact (List.nodup_cons.mp hnodup).1 hid'
  refine ⟨?_, fun id hid => absurd hid List.not_mem_nil, fun j hj => ?_⟩
  · have hright : (m.waiting ++ m.accepted cfg (.take worker now fault)).filter
        (fun j => j.1 ∉ m.withdrawn (.take worker now fault)) = m.waiting := by
      have hnone : m.accepted cfg (.take worker now fault) = [] := rfl
      rw [hnone, List.append_nil]
      exact List.filter_eq_self.mpr fun j _ => decide_eq_true List.not_mem_nil
    rw [hright, hstarted, hwaiting, hrest, Manager.waiting, hqueue, List.filterMap_cons, hspec]
    rfl
  · rw [hstarted] at hj
    obtain rfl := List.mem_singleton.mp hj
    rw [hafter, hqueue]
    exact ⟨List.mem_cons_self, (List.nodup_cons.mp hnodup).1⟩

/-- The events of running jobs leave the queue alone. -/
theorem passes_of_same (hstarted : m.started ev = []) (haccepted : m.accepted cfg ev = [])
    (hwithdrawn : m.withdrawn ev = []) (hsame : (m.step cfg ev).waiting = m.waiting) : m.Passes cfg ev := by
  refine ⟨?_, fun id hid => ?_, fun j hj => ?_⟩
  · rw [hstarted, haccepted, hsame, List.append_nil, List.nil_append]
    exact (List.filter_eq_self.mpr fun j _ => decide_eq_true (by rw [hwithdrawn]; exact List.not_mem_nil)).symm
  · rw [hwithdrawn] at hid
    cases hid
  · rw [hstarted] at hj
    cases hj

/-- A worker that waits starts the first job, if there is one. -/
theorem take_passes {worker : ℕ} {now : OffsetDateTime} {fault : Option String} (h : m.Invariant cfg) :
    m.Passes cfg (.take worker now fault) := by
  by_cases hstarts : m.workers[worker]? = some .waiting ∧ m.shutdown = false
  · obtain ⟨hworker, hup⟩ := hstarts
    have hdown : ¬ m.shutdown = true := by simp [hup]
    -- the queue is empty, or its first job has a specification
    rcases popJob_eq h with ⟨hpop, hempty⟩ | ⟨id, queue, spec, hqueue, hpop⟩
    · have htake : m.step cfg (.take worker now fault) = { m with queue := [] } := by
        simp only [Manager.step, Manager.take, hworker, if_neg hdown, hpop]
      refine passes_of_same ?_ rfl rfl ?_
      · simp only [Manager.started, hworker, if_neg hdown, hpop]
        rfl
      · rw [htake, Manager.waiting, Manager.waiting, hempty]
    · have hspec : m.specs[id]? = some spec := popJob_spec hpop
      have htake : m.step cfg (.take worker now fault) = (Manager.updateJob { m with
          queue := queue, specs := m.specs.erase id, cancels := m.cancels.insert id false } id
            (fun j => { j with state := .running, startedAt := some now }) fault).setWorker worker
              (.executing id spec) := by
        simp only [Manager.step, Manager.take, hworker, if_neg hdown, hpop]
      refine start_passes h hqueue hspec ?_ ?_ ?_
      · simp only [Manager.started, hworker, if_neg hdown, hpop]
        rfl
      · rw [htake, setWorker_waiting, updateJob_waiting]
        rfl
      · obtain ⟨jobs, store, heq, -⟩ := updateJob_eq { m with
          queue := queue, specs := m.specs.erase id, cancels := m.cancels.insert id false } id
            (fun j => { j with state := .running, startedAt := some now }) fault
        rw [htake, heq]
        rfl
  -- no worker starts a job after the shutdown, or while it is not waiting
  · have hdown : m.workers[worker]? = some .waiting → m.shutdown = true := by
      intro hworker
      simpa [hworker] using hstarts
    have hidle : m.started (.take worker now fault) = [] ∧
        (m.step cfg (.take worker now fault)).waiting = m.waiting := by
      simp only [Manager.started, Manager.step, Manager.take]
      cases hworker : m.workers[worker]? with
      | none => exact ⟨rfl, rfl⟩
      | some w =>
        cases w with
        | waiting =>
          rw [hdown hworker]
          exact ⟨rfl, rfl⟩
        | _ => exact ⟨rfl, rfl⟩
    exact passes_of_same hidle.1 rfl rfl hidle.2

theorem step_passes (h : m.Invariant cfg) (hfresh : ∀ id ∈ ev.drawn, m.stateOf id = none) : m.Passes cfg ev := by
  cases ev with
  | submit owner schedule spec id now fault => exact submit_passes h (hfresh id List.mem_cons_self)
  | cancel id now fault => exact cancel_passes h
  | shutdown => exact passes_of_same rfl rfl rfl rfl
  | take worker now fault => exact take_passes h
  | execute worker x =>
    refine passes_of_same rfl rfl rfl ?_
    rw [Manager.step, Manager.execute]
    split <;> rfl
  | finish worker now fault stuck =>
    refine passes_of_same rfl rfl rfl ?_
    rw [Manager.step, Manager.finish]
    split
    · exact updateJob_waiting
    · rfl

/-! ### Runs -/

/-- What is drawn later is not there yet. -/
theorem collect_accepted_drawn {j : Uuid × JobSpec} (hj : j ∈ m.collect cfg (Manager.accepted cfg) evs) :
    j.1 ∈ evs.flatMap ManagerEvent.drawn := by
  induction evs generalizing m with
  | nil => cases hj
  | cons ev evs ih =>
    rw [List.flatMap_cons]
    rcases List.mem_append.mp hj with hnow | hlater
    · refine List.mem_append_left _ ?_
      cases ev with
      | submit owner schedule spec id now fault =>
        rw [accepted_submit] at hnow
        split_ifs at hnow
        · obtain rfl := List.mem_singleton.mp hnow
          exact List.mem_cons_self
        · cases hnow
      | _ => cases hnow
    · exact List.mem_append_right _ (ih hlater)

/-- A job that is not queued is not withdrawn, unless it is submitted. -/
theorem not_withdrawn (h : m.Invariant cfg) (hfresh : m.Fresh evs)
    (hnot : id ∉ evs.flatMap ManagerEvent.drawn) (hstate : m.stateOf id ≠ some .queued) :
    id ∉ m.collect cfg withdrawn evs := by
  induction evs generalizing m with
  | nil => exact List.not_mem_nil
  | cons ev evs ih =>
    rw [List.flatMap_cons, List.mem_append, not_or] at hnot
    have hnext : (m.step cfg ev).stateOf id ≠ some .queued := by
      intro hqueued
      have hmove := (step_steps h hfresh.head).2 id
      rw [hqueued] at hmove
      generalize m.stateOf id = old at hmove hstate
      cases hmove with
      | same => exact hstate rfl
      | submitted hin => exact hnot.1 hin
      | ended hfinished => cases hfinished
    intro hid
    rcases List.mem_append.mp hid with hnow | hlater
    · exact hstate ((h.placed id).queue.mp ((step_passes h hfresh.head).withdrawn id hnow))
    · exact ih (step_steps h hfresh.head).1 (hfresh.tail h) hnot.2 hnext hlater

theorem Manager.Fresh.not_drawn_later (h : m.Invariant cfg) (hfresh : m.Fresh (ev :: evs)) (hid : id ∈ m.queue) :
    id ∉ evs.flatMap ManagerEvent.drawn := by
  intro hdrawn
  have hnone := hfresh.unused id (by rw [List.flatMap_cons]; exact List.mem_append_right _ hdrawn)
  rw [(h.placed id).queue.mp hid] at hnone
  cases hnone

/-- The jobs that started, and then those that wait, are those that waited or were accepted, but for the withdrawn
ones. -/
theorem run_passes (h : m.Invariant cfg) (hfresh : m.Fresh evs) :
    m.collect cfg started evs ++ (m.run cfg evs).waiting =
      (m.waiting ++ m.collect cfg (Manager.accepted cfg) evs).filter
        fun j => j.1 ∉ m.collect cfg withdrawn evs := by
  induction evs generalizing m with
  | nil =>
    simp only [Manager.collect, List.nil_append, List.append_nil, List.not_mem_nil, not_false_eq_true, decide_true,
      List.filter_true]
    rfl
  | cons ev evs ih =>
    have hstep := step_passes h hfresh.head
    have hnext := (step_steps h hfresh.head).1
    have htail := hfresh.tail h
    -- a job that started is not in the queue any more, so it is not withdrawn later
    have hstarted : (m.started ev).filter (fun j => j.1 ∉ (m.step cfg ev).collect cfg withdrawn evs) = m.started ev := by
      refine List.filter_eq_self.mpr fun j hj => decide_eq_true ?_
      obtain ⟨hin, hout⟩ := hstep.started j hj
      exact not_withdrawn hnext htail (hfresh.not_drawn_later h hin) (mt (hnext.placed j.1).queue.mpr hout)
    -- a job accepted later is none that was withdrawn now
    have hlater : ((m.step cfg ev).collect cfg (Manager.accepted cfg) evs).filter (fun j => j.1 ∉ m.withdrawn ev) =
        (m.step cfg ev).collect cfg (Manager.accepted cfg) evs := by
      refine List.filter_eq_self.mpr fun j hj => decide_eq_true fun hwithdrawn => ?_
      exact hfresh.not_drawn_later h (hstep.withdrawn j.1 hwithdrawn) (collect_accepted_drawn hj)
    have hsplit (l : List (Uuid × JobSpec)) :
        l.filter (fun j => j.1 ∉ m.withdrawn ev ++ (m.step cfg ev).collect cfg withdrawn evs) =
          (l.filter fun j => j.1 ∉ m.withdrawn ev).filter
            fun j => j.1 ∉ (m.step cfg ev).collect cfg withdrawn evs := by
      rw [List.filter_filter]
      refine List.filter_congr fun j _ => ?_
      simp [List.mem_append, not_or, and_comm]
    simp only [Manager.collect]
    calc m.started ev ++ (m.step cfg ev).collect cfg started evs ++ (m.run cfg (ev :: evs)).waiting
        = m.started ev ++ ((m.step cfg ev).waiting ++
            (m.step cfg ev).collect cfg (Manager.accepted cfg) evs).filter
              (fun j => j.1 ∉ (m.step cfg ev).collect cfg withdrawn evs) := by
          rw [List.append_assoc, ← ih hnext htail]
          rfl
      _ = ((m.started ev ++ (m.step cfg ev).waiting) ++
            (m.step cfg ev).collect cfg (Manager.accepted cfg) evs).filter
              (fun j => j.1 ∉ (m.step cfg ev).collect cfg withdrawn evs) := by
          rw [List.append_assoc, List.filter_append (m.started ev), hstarted]
      _ = (m.waiting ++ (m.accepted cfg ev ++ (m.step cfg ev).collect cfg (Manager.accepted cfg) evs)).filter
            (fun j => j.1 ∉ m.withdrawn ev ++ (m.step cfg ev).collect cfg withdrawn evs) := by
          rw [hsplit, ← List.append_assoc, List.filter_append (m.waiting ++ m.accepted cfg ev), ← hstep.waiting,
            hlater]

/-- The identifiers of accepted jobs were drawn in the order of the run. -/
theorem collect_accepted_sublist :
    ((m.collect cfg (Manager.accepted cfg) evs).map Prod.fst).Sublist (evs.flatMap ManagerEvent.drawn) := by
  induction evs generalizing m with
  | nil => exact List.nil_sublist _
  | cons ev evs ih =>
    rw [List.flatMap_cons, Manager.collect, List.map_append]
    refine List.Sublist.append ?_ ih
    cases ev with
    | submit owner schedule spec id now fault =>
      rw [accepted_submit]
      split_ifs
      · exact .refl _
      · exact List.nil_sublist _
    | _ => exact List.nil_sublist _

/-- Jobs start in the order in which they were accepted, with the specifications they were submitted with. Those
that did not start still wait or were withdrawn while they did, and no job starts twice. -/
theorem jobs_in_order (cfg : ServiceConfig) (store : JobStore) (now : OffsetDateTime) (unsaved : List Uuid)
    (evs : List ManagerEvent) (hfresh : (Manager.new cfg store now unsaved).Fresh evs) :
    (Manager.new cfg store now unsaved).collect cfg started evs ++
        ((Manager.new cfg store now unsaved).run cfg evs).waiting =
      ((Manager.new cfg store now unsaved).collect cfg (Manager.accepted cfg) evs).filter
        (fun j => j.1 ∉ (Manager.new cfg store now unsaved).collect cfg withdrawn evs) ∧
    (((Manager.new cfg store now unsaved).collect cfg started evs).map Prod.fst).Nodup := by
  have hrun := run_passes (new_invariant cfg store now unsaved) hfresh
  have hnone : (Manager.new cfg store now unsaved).waiting = [] := rfl
  rw [hnone, List.nil_append] at hrun
  refine ⟨hrun, ?_⟩
  have hdrawn : (((Manager.new cfg store now unsaved).collect cfg (Manager.accepted cfg) evs).map Prod.fst).Sublist
      (evs.flatMap ManagerEvent.drawn) := collect_accepted_sublist
  have hnodup := hdrawn.nodup hfresh.nodup
  have hsub := List.filter_sublist (p := fun j =>
    decide (j.1 ∉ (Manager.new cfg store now unsaved).collect cfg withdrawn evs))
      (l := (Manager.new cfg store now unsaved).collect cfg (Manager.accepted cfg) evs)
  rw [← hrun] at hsub
  exact (((List.sublist_append_left _ _).trans hsub).map Prod.fst).nodup hnodup

theorem jobs_in_order_sample :
    freshService.collect smallConfig started cancelledSample ++ (freshService.run smallConfig cancelledSample).waiting =
      (freshService.collect smallConfig (Manager.accepted smallConfig) cancelledSample).filter
        fun j => j.1 ∉ freshService.collect smallConfig withdrawn cancelledSample :=
  (jobs_in_order smallConfig ⟨∅, ∅⟩ (onSep25 0) [] cancelledSample cancelledSample_fresh).1

end AbyssalWarden
