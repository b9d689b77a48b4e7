import AbyssalWarden.JobManager

/-! The collections of the job manager agree with each other in every state that its critical sections can
reach, in whatever order they come. -/
namespace AbyssalWarden

open Manager

variable {cfg : ServiceConfig} {m : Manager} {ev : ManagerEvent} {evs : List ManagerEvent} {id id' : Uuid}
  {now : OffsetDateTime} {fault : Option String} {worker : ℕ}

/-! ### Looking up -/

section
variable {α β : Type} [Ord α] [Std.TransOrd α] [Std.LawfulEqOrd α] {t : Std.TreeMap α β} {k a : α} {v : β}

theorem mem_insert_or : a ∈ t.insert k v ↔ a = k ∨ a ∈ t := by
  rw [Std.TreeMap.mem_insert, Std.LawfulEqOrd.compare_eq_iff_eq, eq_comm]

theorem mem_erase_and : a ∈ t.erase k ↔ a ≠ k ∧ a ∈ t := by
  rw [Std.TreeMap.mem_erase]
  simp only [ne_eq, Std.LawfulEqOrd.compare_eq_iff_eq, @eq_comm _ k a]

variable [DecidableEq α]

theorem getElem?_insert_ite : (t.insert k v)[a]? = if a = k then some v else t[a]? := by
  rw [Std.TreeMap.getElem?_insert]
  simp only [Std.LawfulEqOrd.compare_eq_iff_eq, @eq_comm _ k a]

theorem getElem?_erase_ite : (t.erase k)[a]? = if a = k then none else t[a]? := by
  rw [Std.TreeMap.getElem?_erase]
  simp only [Std.LawfulEqOrd.compare_eq_iff_eq, @eq_comm _ k a]

end

theorem mem_jobList {jobs : Std.TreeMap Uuid JobSummary} {j : JobSummary} :
    j ∈ jobList jobs ↔ ∃ id : Uuid, jobs[id]? = some j := by
  simp only [jobList, List.mem_map, Prod.exists, Std.TreeMap.mem_toList_iff_getElem?_eq_some,
    exists_eq_right]

/-- The job a worker has. -/
def Manager.jobOf (m : Manager) (worker : ℕ) : Option Uuid := m.workers[worker]?.bind Worker.job

/-- The job is where its state says. -/
structure Manager.Placed (m : Manager) (id : Uuid) : Prop where
  queue : id ∈ m.queue ↔ m.stateOf id = some .queued
  specs : id ∈ m.specs ↔ m.stateOf id = some .queued
  cancels : id ∈ m.cancels ↔ m.stateOf id = some .running
  workers : m.stateOf id = some .running ↔ ∃ worker, m.jobOf worker = some id
  alone : ∀ worker worker', m.jobOf worker = some id → m.jobOf worker' = some id → worker = worker'

/-- What ties the collections together. -/
structure Manager.Invariant (cfg : ServiceConfig) (m : Manager) : Prop where
  placed : ∀ id, m.Placed id
  keyed : ∀ (id : Uuid) (j : JobSummary), m.jobs[id]? = some j → j.id = id
  nodup : m.queue.Nodup
  results : ∀ (worker : ℕ) (id : Uuid) (result : JobResult),
    m.workers[worker]? = some (.finishing id result) → result.state.finished = true
  count : m.workers.length = cfg.maxConcurrentJobs
  bound : m.queue.length ≤ cfg.maxQueuedJobs
  flags : m.shutdown = true → ∀ (id : Uuid) (flag : Bool), m.cancels[id]? = some flag → flag = true

/-- How a job may change in a step. -/
inductive Manager.Moves (m : Manager) (ev : ManagerEvent) (id : Uuid) :
    Option JobState → Option JobState → Prop
  | same (state) : Moves m ev id state state
  | submitted : id ∈ ev.drawn → m.shutdown = false → Moves m ev id none (some .queued)
  | started : m.shutdown = false → Moves m ev id (some .queued) (some .running)
  | cancelled {now : OffsetDateTime} {fault : Option String} : ev = .cancel id now fault →
    Moves m ev id (some .queued) (some .cancelled)
  | ended {state : JobState} : state.finished = true → Moves m ev id (some .running) (some state)
  | endedAndPruned : Moves m ev id (some .running) none
  | pruned {state : JobState} : state.finished = true → Moves m ev id (some state) none

/-! ### What the parts do to the jobs -/

theorem stateOf_eq_some {state : JobState} :
    m.stateOf id = some state ↔ ∃ j, m.jobs[id]? = some j ∧ j.state = state := by
  simp [Manager.stateOf]

theorem stateOf_congr {m' : Manager} (h : m'.jobs[id]? = m.jobs[id]?) : m'.stateOf id = m.stateOf id := by
  rw [Manager.stateOf, h, Manager.stateOf]

@[simp] theorem setWorker_stateOf {w : Worker} : (m.setWorker worker w).stateOf id = m.stateOf id := rfl

theorem setWorker_jobOf {w : Worker} {worker' : ℕ} (h : worker < m.workers.length) :
    (m.setWorker worker w).jobOf worker' = if worker' = worker then w.job else m.jobOf worker' := by
  unfold Manager.jobOf Manager.setWorker
  rw [List.getElem?_set]
  split_ifs with h₁ h₂ h₂
  · rfl
  · exact absurd h₁.symm h₂
  · exact absurd h₂.symm h₁
  · rfl

/-- The jobs after one of them was changed. -/
def Updated (id : Uuid) (f : JobSummary → JobSummary) (jobs jobs' : Std.TreeMap Uuid JobSummary) : Prop :=
  ∀ id' : Uuid, jobs'[id']? = if id' = id then jobs[id]?.map f else jobs[id']?

/-- An update leaves everything but the job and the files alone. -/
theorem updateJob_eq (m : Manager) (id : Uuid) (f : JobSummary → JobSummary) (fault : Option String) :
    ∃ jobs store, m.updateJob id f fault = { m with jobs := jobs, store := store } ∧
      Updated id f m.jobs jobs := by
  unfold Manager.updateJob
  split
  · rename_i hnone
    refine ⟨m.jobs, m.store, rfl, fun id' => ?_⟩
    split
    · rename_i heq
      rw [heq, hnone]
      rfl
    · rfl
  · rename_i j hj
    refine ⟨_, _, rfl, fun id' => ?_⟩
    rw [getElem?_insert_ite, hj]
    rfl

theorem Updated.keyed {f : JobSummary → JobSummary} {jobs jobs' : Std.TreeMap Uuid JobSummary}
    (h : Updated id f jobs jobs') (hf : ∀ j, (f j).id = j.id)
    (hjobs : ∀ (id : Uuid) (j : JobSummary), jobs[id]? = some j → j.id = id) (id' : Uuid)
    (j : JobSummary) (hj : jobs'[id']? = some j) : j.id = id' := by
  rw [h] at hj
  split at hj
  · rename_i hid
    obtain ⟨j₀, hj₀, rfl⟩ := Option.map_eq_some_iff.mp hj
    rw [hf, hjobs id j₀ hj₀, hid]
  · exact hjobs id' j hj

/-- The states after an update that sets one. -/
theorem Updated.states {f : JobSummary → JobSummary} {jobs jobs' : Std.TreeMap Uuid JobSummary}
    {state state' : JobState} (h : Updated id f jobs jobs') (hf : ∀ j, (f j).state = state')
    (hid : jobs[id]?.map JobSummary.state = some state) (id' : Uuid) :
    jobs'[id']?.map JobSummary.state =
      if id' = id then some state' else jobs[id']?.map JobSummary.state := by
  rw [h]
  split
  · obtain ⟨j, hj, -⟩ := Option.map_eq_some_iff.mp hid
    rw [hj, Option.map_some, Option.map_some, hf]
  · rfl

/-! ### One job at a time -/

/-- Only this job differs. -/
structure Manager.Touches (id : Uuid) (m m' : Manager) : Prop where
  stateOf : ∀ id', id' ≠ id → m'.stateOf id' = m.stateOf id'
  queue : ∀ id', id' ≠ id → (id' ∈ m'.queue ↔ id' ∈ m.queue)
  specs : ∀ id', id' ≠ id → (id' ∈ m'.specs ↔ id' ∈ m.specs)
  cancels : ∀ id', id' ≠ id → (id' ∈ m'.cancels ↔ id' ∈ m.cancels)
  jobOf : ∀ worker id', id' ≠ id → (m'.jobOf worker = some id' ↔ m.jobOf worker = some id')

variable {m' : Manager}

/-- A step that moves one job to where its new state says keeps the collections in agreement. -/
theorem Manager.Touches.placed (h : Touches id m m') (hm : ∀ id, m.Placed id) (hid : m'.Placed id)
    (id' : Uuid) : m'.Placed id' := by
  by_cases hne : id' = id
  · rw [hne]
    exact hid
  · obtain ⟨hqueue, hspecs, hcancels, hworkers, halone⟩ := hm id'
    refine ⟨?_, ?_, ?_, ?_, fun w w' => ?_⟩
    · rw [h.queue id' hne, h.stateOf id' hne, hqueue]
    · rw [h.specs id' hne, h.stateOf id' hne, hspecs]
    · rw [h.cancels id' hne, h.stateOf id' hne, hcancels]
    · simp only [h.stateOf id' hne, h.jobOf _ id' hne, hworkers]
    · rw [h.jobOf w id' hne, h.jobOf w' id' hne]
      exact halone w w'

/-- What a step has to come to. -/
def Manager.StepsTo (cfg : ServiceConfig) (m : Manager) (ev : ManagerEvent) (m' : Manager) : Prop :=
  m'.Invariant cfg ∧ ∀ id, m.Moves ev id (m.stateOf id) (m'.stateOf id)

theorem Manager.Invariant.stutter (h : m.Invariant cfg) : m.StepsTo cfg ev m := ⟨h, fun _ => .same _⟩

theorem enqueue_steps {summary : JobSummary} {spec : JobSpec} {store : JobStore} (h : m.Invariant cfg)
    (hfresh : m.stateOf summary.id = none) (hqueued : summary.state = .queued)
    (hdrawn : summary.id ∈ ev.drawn) (hdown : m.shutdown = false)
    (hroom : m.queue.length < cfg.maxQueuedJobs) :
    m.StepsTo cfg ev (m.enqueue summary spec store) := by
  have hstate (id' : Uuid) : (m.enqueue summary spec store).stateOf id' =
      if id' = summary.id then some .queued else m.stateOf id' := by
    rw [Manager.stateOf, Manager.enqueue]
    dsimp only
    rw [getElem?_insert_ite]
    split
    · rw [Option.map_some, hqueued]
    · rfl
  -- an identifier that is no job's is in none of the collections
  have hplaced := h.placed summary.id
  have hnotqueued : summary.id ∉ m.queue := by simp [hplaced.queue, hfresh]
  have hnotcancels : summary.id ∉ m.cancels := by simp [hplaced.cancels, hfresh]
  have hnotworkers : ¬ ∃ worker, m.jobOf worker = some summary.id := by
    simp [← hplaced.workers, hfresh]
  have hnew : (m.enqueue summary spec store).stateOf summary.id = some .queued := by
    rw [hstate, if_pos rfl]
  have hqueue (id' : Uuid) : id' ∈ (m.enqueue summary spec store).queue ↔
      id' ∈ m.queue ∨ id' = summary.id := by simp [Manager.enqueue]
  have hspecs (id' : Uuid) : id' ∈ (m.enqueue summary spec store).specs ↔
      id' = summary.id ∨ id' ∈ m.specs := mem_insert_or
  -- all other jobs are where they were
  have htouches : Touches summary.id m (m.enqueue summary spec store) := by
    refine ⟨fun id' hne => by rw [hstate, if_neg hne], fun id' hne => ?_, fun id' hne => ?_,
      fun _ _ => Iff.rfl, fun _ _ _ => Iff.rfl⟩
    · rw [hqueue, or_iff_left hne]
    · rw [hspecs, or_iff_right hne]
  refine ⟨⟨htouches.placed h.placed ⟨?_, ?_, ?_, ?_, hplaced.alone⟩, ?_, ?_, h.results, h.count, ?_,
    h.flags⟩, fun id' => ?_⟩
  · exact iff_of_true ((hqueue _).mpr (.inr rfl)) hnew
  · exact iff_of_true ((hspecs _).mpr (.inl rfl)) hnew
  · exact iff_of_false hnotcancels (by simp [hnew])
  · exact iff_of_false (by simp [hnew]) hnotworkers
  · intro id' j hj
    change (m.jobs.insert summary.id summary)[id']? = some j at hj
    rw [getElem?_insert_ite] at hj
    split at hj
    · rename_i heq
      cases hj
      exact heq.symm
    · exact h.keyed id' j hj
  · exact List.nodup_append.mpr ⟨h.nodup, List.nodup_singleton _, fun a ha b hb heq =>
      hnotqueued (List.mem_singleton.mp hb ▸ heq ▸ ha)⟩
  · simp only [Manager.enqueue, List.length_append, List.length_singleton]
    omega
  · by_cases hne : id' = summary.id
    · rw [hne, hnew, hfresh]
      exact .submitted hdrawn hdown
    · rw [hstate, if_neg hne]
      exact .same _

theorem submit_steps {owner : String} {schedule : Option String} {spec : JobSpec} (h : m.Invariant cfg)
    (hfresh : m.stateOf id = none) :
    m.StepsTo cfg (.submit owner schedule spec id now fault)
      (m.submit cfg owner schedule spec id now fault).2 := by
  unfold Manager.submit
  by_cases hdown : m.shutdown = true
  · rw [if_pos hdown]
    exact h.stutter
  rw [if_neg hdown]
  by_cases hfull : m.queue.length ≥ cfg.maxQueuedJobs
  · rw [if_pos hfull]
    exact h.stutter
  rw [if_neg hfull]
  cases fault with
  | some e => exact h.stutter
  | none =>
    simp only [JobStore.saveJob]
    generalize hsummary : queuedJob owner schedule spec id now = summary
    have hid : summary.id = id := by rw [← hsummary, queuedJob]
    have hqueued : summary.state = .queued := by rw [← hsummary, queuedJob]
    have hdrawn : summary.id ∈ (ManagerEvent.submit owner schedule spec id now none).drawn :=
      List.mem_singleton.mpr hid
    exact enqueue_steps h (hid.symm ▸ hfresh) hqueued hdrawn (by simpa using hdown) (by omega)

/-! ### Cancelling -/

/-- A flag that is set again stays with its job. -/
theorem flag_steps (h : m.Invariant cfg) (hid : id ∈ m.cancels) :
    m.StepsTo cfg ev { m with cancels := m.cancels.insert id true } := by
  have hcancels (id' : Uuid) : id' ∈ m.cancels.insert id true ↔ id' ∈ m.cancels := by
    rw [mem_insert_or]
    exact ⟨fun h => h.elim (fun heq => heq ▸ hid) fun h => h, .inr⟩
  refine ⟨⟨fun id' => ?_, h.keyed, h.nodup, h.results, h.count, h.bound, fun hdown id' flag hflag => ?_⟩,
    fun _ => .same _⟩
  · obtain ⟨hqueue, hspecs, hin, hworkers, halone⟩ := h.placed id'
    exact ⟨hqueue, hspecs, (hcancels id').trans hin, hworkers, halone⟩
  · change (m.cancels.insert id true)[id']? = some flag at hflag
    rw [getElem?_insert_ite] at hflag
    split at hflag
    · exact (Option.some.inj hflag).symm
    · exact h.flags hdown id' flag hflag

/-- A queued job that is cancelled leaves the queue. -/
theorem dequeue_steps (h : m.Invariant cfg) (hid : id ∈ m.queue) :
    m.StepsTo cfg (.cancel id now fault)
      (Manager.updateJob { m with queue := m.queue.erase id, specs := m.specs.erase id } id
        (fun j => { j with state := .cancelled, finishedAt := some now }) fault) := by
  have hplaced := h.placed id
  have hold : m.stateOf id = some .queued := hplaced.queue.mp hid
  obtain ⟨jobs, store, heq, hjobs⟩ := updateJob_eq
    { m with queue := m.queue.erase id, specs := m.specs.erase id } id
    (fun j => { j with state := .cancelled, finishedAt := some now }) fault
  rw [heq]
  have hstate (id' : Uuid) : Manager.stateOf { m with
      jobs := jobs, specs := m.specs.erase id, queue := m.queue.erase id, store := store } id' =
        if id' = id then some .cancelled else m.stateOf id' :=
    hjobs.states (fun _ => (rfl : JobState.cancelled = .cancelled)) hold id'
  -- the queue holds the job once, so it is gone with one occurrence
  have hgone : id ∉ m.queue.erase id := h.nodup.not_mem_erase
  have htouches : Touches id m { m with
      jobs := jobs, specs := m.specs.erase id, queue := m.queue.erase id, store := store } :=
    ⟨fun id' hne => by rw [hstate, if_neg hne], fun _ hne => List.mem_erase_of_ne hne,
      fun _ hne => mem_erase_and.trans (and_iff_right hne), fun _ _ => Iff.rfl, fun _ _ _ => Iff.rfl⟩
  refine ⟨⟨htouches.placed h.placed ⟨?_, ?_, ?_, ?_, hplaced.alone⟩, hjobs.keyed (fun _ => rfl) h.keyed,
    h.nodup.erase id, h.results, h.count, ?_, h.flags⟩, fun id' => ?_⟩
  · exact iff_of_false hgone (by simp [hstate])
  · exact iff_of_false (fun hin => (mem_erase_and.mp hin).1 rfl) (by simp [hstate])
  · exact iff_of_false (by simp [hplaced.cancels, hold]) (by simp [hstate])
  · exact iff_of_false (by simp [hstate]) (mt hplaced.workers.mpr (by simp [hold]))
  · exact List.length_erase_le.trans h.bound
  · rw [hstate]
    split
    · rename_i heq
      rw [heq, hold]
      exact .cancelled rfl
    · exact .same _

theorem cancel_steps (h : m.Invariant cfg) :
    m.StepsTo cfg (.cancel id now fault) (m.cancel id now fault).2 := by
  unfold Manager.cancel
  by_cases hflag : m.cancels.contains id = true
  · rw [if_pos hflag]
    exact flag_steps h hflag
  · rw [if_neg hflag]
    by_cases hqueue : m.queue.contains id = true
    · rw [if_pos hqueue]
      exact dequeue_steps h (List.contains_iff_mem.mp hqueue)
    · rw [if_neg hqueue]
      exact h.stutter

theorem beginShutdown_steps (h : m.Invariant cfg) : m.StepsTo cfg .shutdown m.beginShutdown := by
  refine ⟨⟨fun id' => ?_, h.keyed, h.nodup, h.results, h.count, h.bound, fun _ id' flag hflag => ?_⟩,
    fun _ => .same _⟩
  · obtain ⟨hqueue, hspecs, hcancels, hworkers, halone⟩ := h.placed id'
    exact ⟨hqueue, hspecs, Std.TreeMap.mem_map.trans hcancels, hworkers, halone⟩
  · change (m.cancels.map fun _ _ => true)[id']? = some flag at hflag
    rw [Std.TreeMap.getElem?_map] at hflag
    obtain ⟨_, -, hflag⟩ := Option.map_eq_some_iff.mp hflag
    exact hflag.symm

/-! ### Workers -/

/-- Every job in the queue has a specification, so the first one is taken. -/
theorem popJob_eq (h : m.Invariant cfg) : popJob m.specs m.queue = (none, []) ∧ m.queue = [] ∨
    ∃ id queue spec, m.queue = id :: queue ∧ popJob m.specs m.queue = (some (id, spec), queue) := by
  cases hqueue : m.queue with
  | nil => exact .inl ⟨rfl, rfl⟩
  | cons id queue =>
    have hid : id ∈ m.queue := hqueue ▸ List.mem_cons_self
    have hspec : id ∈ m.specs := (h.placed id).specs.mpr ((h.placed id).queue.mp hid)
    obtain ⟨spec, hspec⟩ := Option.isSome_iff_exists.mp (Std.TreeMap.isSome_getElem?_iff_mem.mpr hspec)
    refine .inr ⟨id, queue, spec, rfl, ?_⟩
    rw [popJob, hspec]

/-- The first job of the queue starts on a waiting worker. -/
theorem start_steps {queue : List Uuid} {spec : JobSpec} (h : m.Invariant cfg)
    (hqueue : m.queue = id :: queue) (hwaiting : m.workers[worker]? = some .waiting)
    (hdown : m.shutdown = false) :
    m.StepsTo cfg ev ((Manager.updateJob { m with
      queue := queue, specs := m.specs.erase id, cancels := m.cancels.insert id false } id
        (fun j => { j with state := .running, startedAt := some now }) fault).setWorker worker
      (.executing id spec)) := by
  have hplaced := h.placed id
  have hin : id ∈ m.queue := hqueue ▸ List.mem_cons_self
  have hold : m.stateOf id = some .queued := hplaced.queue.mp hin
  have hnodup : (id :: queue).Nodup := hqueue ▸ h.nodup
  have hlt : worker < m.workers.length := by
    by_contra hge
    rw [List.getElem?_eq_none (by omega)] at hwaiting
    cases hwaiting
  obtain ⟨jobs, store, heq, hjobs⟩ := updateJob_eq
    { m with queue := queue, specs := m.specs.erase id, cancels := m.cancels.insert id false } id
    (fun j => { j with state := .running, startedAt := some now }) fault
  rw [heq]
  -- from here on only what is known of each collection of the new state is used
  generalize hm' : Manager.setWorker { m with
    jobs := jobs
    specs := m.specs.erase id
    queue := queue
    cancels := m.cancels.insert id false
    store := store } worker (.executing id spec) = m'
  have hstate (id' : Uuid) : m'.stateOf id' = if id' = id then some .running else m.stateOf id' := by
    rw [← hm']
    exact hjobs.states (fun _ => (rfl : JobState.running = .running)) hold id'
  have hjobOf (worker' : ℕ) : m'.jobOf worker' =
      if worker' = worker then some id else m.jobOf worker' := by
    rw [← hm']
    exact setWorker_jobOf hlt
  have hqueue' : m'.queue = queue := by rw [← hm']; rfl
  have hspecs (id' : Uuid) : id' ∈ m'.specs ↔ id' ≠ id ∧ id' ∈ m.specs := by
    rw [← hm']
    exact mem_erase_and
  have hcancels (id' : Uuid) : id' ∈ m'.cancels ↔ id' = id ∨ id' ∈ m.cancels := by
    rw [← hm']
    exact mem_insert_or
  -- the job was queued, so no worker had it
  have hnone (worker' : ℕ) : m.jobOf worker' ≠ some id := by
    intro hjob
    have hrunning := hplaced.workers.mpr ⟨worker', hjob⟩
    rw [hold] at hrunning
    cases hrunning
  have hidle : m.jobOf worker = none := by rw [Manager.jobOf, hwaiting]; rfl
  have htouches : Touches id m m' := by
    refine ⟨fun id' hne => by rw [hstate, if_neg hne], fun id' hne => ?_, fun id' hne => ?_,
      fun id' hne => ?_, fun worker' id' hne => ?_⟩
    · rw [hqueue', hqueue, List.mem_cons, or_iff_right hne]
    · rw [hspecs, and_iff_right hne]
    · rw [hcancels, or_iff_right hne]
    · rw [hjobOf]
      split
      · rename_i heq
        rw [heq, hidle]
        simpa using hne.symm
      · exact Iff.rfl
  -- where the job itself is now, and then the rest of the invariant
  refine ⟨⟨htouches.placed h.placed ⟨?_, ?_, ?_, ?_, ?_⟩, ?_, ?_, ?_, ?_, ?_, ?_⟩, fun id' => ?_⟩
  · exact iff_of_false (hqueue'.symm ▸ (List.nodup_cons.mp hnodup).1) (by simp [hstate])
  · exact iff_of_false (fun hin => ((hspecs id).mp hin).1 rfl) (by simp [hstate])
  · exact iff_of_true ((hcancels id).mpr (.inl rfl)) (by simp [hstate])
  · exact iff_of_true (by simp [hstate]) ⟨worker, by simp [hjobOf]⟩
  -- the worker that took the job is the only one that has it
  · intro w w' hw hw'
    rw [hjobOf] at hw hw'
    split at hw <;> split at hw'
    · omega
    · exact absurd hw' (hnone w')
    · exact absurd hw (hnone w)
    · exact absurd hw (hnone w)
  · rw [← hm']
    exact hjobs.keyed (fun _ => rfl) h.keyed
  · exact hqueue'.symm ▸ (List.nodup_cons.mp hnodup).2
  · intro w id' result hw
    rw [← hm'] at hw
    change (m.workers.set worker _)[w]? = _ at hw
    rw [List.getElem?_set] at hw
    split at hw
    · simp at hw
    · exact h.results w id' result hw
  · rw [← hm']
    exact (List.length_set ..).trans h.count
  · have hbound := h.bound
    rw [hqueue, List.length_cons] at hbound
    rw [hqueue']
    omega
  -- no job starts after a shutdown, so there is nothing to show of the flags
  · intro hdown'
    rw [← hm'] at hdown'
    change m.shutdown = true at hdown'
    rw [hdown] at hdown'
    cases hdown'
  · rw [hstate]
    split
    · rename_i heq
      rw [heq, hold]
      exact .started hdown
    · exact .same _

theorem lt_of_worker {w : Worker} (h : m.workers[worker]? = some w) : worker < m.workers.length :=
  (List.getElem?_eq_some_iff.mp h).1

/-- A worker goes on with the job it has, or without one. -/
theorem goOn_steps {w : Worker} {store : JobStore} (h : m.Invariant cfg)
    (hlt : worker < m.workers.length) (hjob : w.job = m.jobOf worker)
    (hresult : ∀ id result, w = .finishing id result → result.state.finished = true) :
    m.StepsTo cfg ev (Manager.setWorker { m with store := store } worker w) := by
  -- which job each worker has does not change
  have hjobOf (worker' : ℕ) : (Manager.setWorker { m with store := store } worker w).jobOf worker' =
      m.jobOf worker' := by
    refine (setWorker_jobOf hlt).trans ?_
    rw [hjob]
    split
    · rename_i heq
      rw [heq]
    · rfl
  refine ⟨⟨fun id' => ?_, h.keyed, h.nodup, fun w' id' result hw => ?_, ?_, h.bound, h.flags⟩,
    fun _ => .same _⟩
  · obtain ⟨hqueue, hspecs, hcancels, hworkers, halone⟩ := h.placed id'
    refine ⟨hqueue, hspecs, hcancels, ?_, fun w' w'' => ?_⟩
    · simp only [hjobOf]
      exact hworkers
    · rw [hjobOf, hjobOf]
      exact halone w' w''
  · change (m.workers.set worker w)[w']? = _ at hw
    rw [List.getElem?_set] at hw
    split at hw
    · exact hresult id' result (Option.some.inj hw)
    · exact h.results w' id' result hw
  · exact (List.length_set ..).trans h.count

theorem take_steps (h : m.Invariant cfg) :
    m.StepsTo cfg (.take worker now fault) (m.take worker now fault) := by
  unfold Manager.take
  split
  · rename_i hwaiting
    by_cases hdown : m.shutdown = true
    · rw [if_pos hdown]
      have hgo : m.StepsTo cfg (.take worker now fault) (Manager.setWorker { m with store := m.store } worker .stopped) :=
        goOn_steps h (lt_of_worker hwaiting) (by rw [Manager.jobOf, hwaiting]; rfl) nofun
      exact hgo
    · rw [if_neg hdown]
      rcases popJob_eq h with ⟨hpop, hempty⟩ | ⟨id, queue, spec, hqueue, hpop⟩
      · rw [hpop]
        dsimp only
        rw [← hempty]
        exact h.stutter
      · rw [hpop]
        exact start_steps h hqueue hwaiting (by simpa using hdown)
  · exact h.stutter

theorem execute_steps {x : Execution} (h : m.Invariant cfg) :
    m.StepsTo cfg (.execute worker x) (m.execute cfg worker x) := by
  unfold Manager.execute
  split
  · rename_i id spec hexecuting
    refine goOn_steps h (lt_of_worker hexecuting) (by rw [Manager.jobOf, hexecuting]; rfl) ?_
    intro id' result heq
    cases heq
    exact x.result_finished cfg spec.kind
  · exact h.stutter

/-! ### The end of a job -/

/-- The job of a worker ends, and the worker waits for another. -/
theorem end_steps (ev : ManagerEvent) (now : OffsetDateTime) (fault : Option String) {result : JobResult}
    (h : m.Invariant cfg)
    (hfinishing : m.workers[worker]? = some (.finishing id result)) :
    m.StepsTo cfg ev ((m.endJob id result now fault).setWorker worker .waiting) := by
  have hplaced := h.placed id
  have hlt := lt_of_worker hfinishing
  have hjob : m.jobOf worker = some id := by rw [Manager.jobOf, hfinishing]; rfl
  have hold : m.stateOf id = some .running := hplaced.workers.mpr ⟨worker, hjob⟩
  have hfinished := h.results worker id result hfinishing
  unfold Manager.endJob
  obtain ⟨jobs, store, heq, hjobs⟩ := updateJob_eq { m with cancels := m.cancels.erase id } id
    (fun j => result.apply { j with finishedAt := some now }) fault
  rw [heq]
  generalize hm' : Manager.setWorker { m with
    jobs := jobs
    cancels := m.cancels.erase id
    store := store } worker .waiting = m'
  have hstate (id' : Uuid) : m'.stateOf id' =
      if id' = id then some result.state else m.stateOf id' := by
    rw [← hm']
    exact hjobs.states (fun _ => (rfl : result.state = result.state)) hold id'
  have hnew : m'.stateOf id = some result.state := by rw [hstate, if_pos rfl]
  -- a result is a finished state
  have hnot {state : JobState} (hstate : state.finished = false) : m'.stateOf id ≠ some state := by
    intro hsame
    rw [hnew] at hsame
    cases hsame
    rw [hstate] at hfinished
    cases hfinished
  have hjobOf (worker' : ℕ) : m'.jobOf worker' =
      if worker' = worker then none else m.jobOf worker' := by
    rw [← hm']
    exact setWorker_jobOf hlt
  have hcancels (id' : Uuid) : id' ∈ m'.cancels ↔ id' ≠ id ∧ id' ∈ m.cancels := by
    rw [← hm']
    exact mem_erase_and
  have hqueue : m'.queue = m.queue := by rw [← hm']; rfl
  have hspecs : m'.specs = m.specs := by rw [← hm']; rfl
  -- the worker was the only one that had the job
  have hfree (worker' : ℕ) : m'.jobOf worker' ≠ some id := by
    rw [hjobOf]
    split
    · exact nofun
    · rename_i hne
      exact fun hsome => hne (hplaced.alone worker' worker hsome hjob)
  have htouches : Touches id m m' := by
    refine ⟨fun id' hne => by rw [hstate, if_neg hne], fun id' _ => by rw [hqueue],
      fun id' _ => by rw [hspecs], fun id' hne => ?_, fun worker' id' hne => ?_⟩
    · rw [hcancels, and_iff_right hne]
    · rw [hjobOf]
      split
      · rename_i heq
        rw [heq, hjob]
        simpa using hne.symm
      · exact Iff.rfl
  -- where the job itself is now, and then the rest of the invariant
  refine ⟨⟨htouches.placed h.placed ⟨?_, ?_, ?_, ?_, ?_⟩, ?_, ?_, ?_, ?_, ?_, ?_⟩, fun id' => ?_⟩
  · rw [hqueue, hplaced.queue, hold]
    exact iff_of_false nofun (hnot rfl)
  · rw [hspecs, hplaced.specs, hold]
    exact iff_of_false nofun (hnot rfl)
  · exact iff_of_false (fun hin => ((hcancels id).mp hin).1 rfl) (hnot rfl)
  · exact iff_of_false (hnot rfl) fun hsome => hsome.elim fun worker' => hfree worker'
  · exact fun w _ hw => absurd hw (hfree w)
  · rw [← hm']
    exact hjobs.keyed (fun _ => rfl) h.keyed
  · exact hqueue.symm ▸ h.nodup
  · intro w id' result' hw
    rw [← hm'] at hw
    change (m.workers.set worker _)[w]? = _ at hw
    rw [List.getElem?_set] at hw
    split at hw
    · simp at hw
    · exact h.results w id' result' hw
  · rw [← hm']
    exact (List.length_set ..).trans h.count
  · exact hqueue.symm ▸ h.bound
  -- the flags that are left were set by the shutdown
  · intro hdown id' flag hflag
    rw [← hm'] at hdown hflag
    change (m.cancels.erase id)[id']? = some flag at hflag
    rw [getElem?_erase_ite] at hflag
    split at hflag
    · cases hflag
    · exact h.flags hdown id' flag hflag
  · rw [hstate]
    split
    · rename_i heq
      rw [heq, hold]
      exact .ended hfinished
    · exact .same _

/-- Only jobs of the list are removed. -/
theorem mem_removeJobs {stuck : JobStore.Stuck} {jobs : List JobSummary} {acc : List Uuid × JobStore}
    (h : id ∈ (jobs.foldl (JobStore.removeJob stuck) acc).1) :
    id ∈ acc.1 ∨ ∃ j ∈ jobs, j.id = id := by
  induction jobs generalizing acc with
  | nil => exact .inl h
  | cons j jobs ih =>
    rcases ih h with hacc | ⟨j', hj', hid⟩
    · unfold JobStore.removeJob at hacc
      dsimp only at hacc
      split at hacc
      · rcases List.mem_append.mp hacc with hacc | hacc
        · exact .inl hacc
        · exact .inr ⟨j, List.mem_cons_self, (List.mem_singleton.mp hacc).symm⟩
      · exact .inl hacc
    · exact .inr ⟨j', List.mem_cons_of_mem _ hj', hid⟩

theorem getElem?_foldl_erase {β : Type} {t : Std.TreeMap Uuid β} {removed : List Uuid} :
    (removed.foldl Std.TreeMap.erase t)[id]? = if id ∈ removed then none else t[id]? := by
  induction removed generalizing t with
  | nil => rfl
  | cons k removed ih =>
    rw [List.foldl_cons, ih, getElem?_erase_ite]
    by_cases hid : id = k <;> simp [hid]

/-- Pruning removes finished jobs, and nothing else changes. -/
theorem prune_stateOf (cfg : ServiceConfig) (stuck : JobStore.Stuck)
    (hkeyed : ∀ (id : Uuid) (j : JobSummary), m.jobs[id]? = some j → j.id = id) (id : Uuid) :
    (m.prune cfg stuck).jobs[id]? = m.jobs[id]? ∨ (m.prune cfg stuck).stateOf id = none ∧
      ∃ state, m.stateOf id = some state ∧ state.finished = true := by
  have hjobs : (m.prune cfg stuck).jobs[id]? =
      if id ∈ (m.store.prune (jobList m.jobs) cfg.historyLimit stuck).1 then none else m.jobs[id]? :=
    getElem?_foldl_erase
  by_cases hid : id ∈ (m.store.prune (jobList m.jobs) cfg.historyLimit stuck).1
  · rw [if_pos hid] at hjobs
    rcases mem_removeJobs hid with hnil | ⟨j, hj, rfl⟩
    · cases hnil
    · obtain ⟨hlisted, hfinished⟩ := List.mem_filter.mp (List.mem_of_mem_take hj)
      obtain ⟨id, hj⟩ := mem_jobList.mp hlisted
      rw [hkeyed id j hj] at hjobs ⊢
      exact .inr ⟨by rw [Manager.stateOf, hjobs]; rfl, j.state, stateOf_eq_some.mpr ⟨j, hj, rfl⟩, hfinished⟩
  · rw [if_neg hid] at hjobs
    exact .inl hjobs

theorem prune_invariant {stuck : JobStore.Stuck} (h : m.Invariant cfg) :
    (m.prune cfg stuck).Invariant cfg := by
  have hstate (id : Uuid) {state : JobState} (hstate : state.finished = false) :
      (m.prune cfg stuck).stateOf id = some state ↔ m.stateOf id = some state := by
    rcases prune_stateOf cfg stuck h.keyed id with hsame | ⟨hgone, old, hold, hfinished⟩
    · rw [Manager.stateOf, hsame, Manager.stateOf]
    · rw [hgone, hold]
      refine iff_of_false nofun fun heq => ?_
      cases heq
      rw [hstate] at hfinished
      cases hfinished
  refine ⟨fun id => ?_, fun id j hj => ?_, h.nodup, h.results, h.count, h.bound, h.flags⟩
  · obtain ⟨hqueue, hspecs, hcancels, hworkers, halone⟩ := h.placed id
    exact ⟨hqueue.trans (hstate id rfl).symm, hspecs.trans (hstate id rfl).symm,
      hcancels.trans (hstate id rfl).symm, (hstate id rfl).trans hworkers, halone⟩
  · rcases prune_stateOf cfg stuck h.keyed id with hsame | ⟨hgone, -⟩
    · rw [hsame] at hj
      exact h.keyed id j hj
    · rw [Manager.stateOf, hj] at hgone
      cases hgone

/-- A job that was pruned right after it ended. -/
theorem Manager.Moves.thenPruned {old : Option JobState} {state : JobState} {stuck : JobStore.Stuck}
    (h : m.Moves (.finish worker now fault stuck) id old (some state)) (hstate : state.finished = true) :
    m.Moves (.finish worker now fault stuck) id old none := by
  cases h with
  | same => exact .pruned hstate
  | submitted hdrawn => cases hdrawn
  | started => cases hstate
  | cancelled hev => cases hev
  | ended => exact .endedAndPruned

theorem finish_steps {stuck : JobStore.Stuck} (h : m.Invariant cfg) :
    m.StepsTo cfg (.finish worker now fault stuck) (m.finish cfg worker now fault stuck) := by
  unfold Manager.finish
  split
  · rename_i id result hfinishing
    obtain ⟨hinv, hmoves⟩ := end_steps (.finish worker now fault stuck) now fault h hfinishing
    refine ⟨prune_invariant hinv, fun id' => ?_⟩
    have hmove := hmoves id'
    change m.Moves _ id' (m.stateOf id')
      ((((m.endJob id result now fault).setWorker worker .waiting).prune cfg stuck).stateOf id')
    rcases prune_stateOf cfg stuck hinv.keyed id' with
      hsame | ⟨hgone, state, hstate, hfinished⟩
    · rw [stateOf_congr hsame]
      exact hmove
    · rw [hgone]
      rw [hstate] at hmove
      exact hmove.thenPruned hfinished
  · exact h.stutter

/-- One step keeps the collections in agreement and moves jobs only as they may. -/
theorem step_steps (h : m.Invariant cfg) (hfresh : ∀ id ∈ ev.drawn, m.stateOf id = none) :
    m.StepsTo cfg ev (m.step cfg ev) := by
  cases ev with
  | submit owner schedule spec id now fault => exact submit_steps h (hfresh id List.mem_cons_self)
  | cancel id now fault => exact cancel_steps h
  | shutdown => exact beginShutdown_steps h
  | take worker now fault => exact take_steps h
  | execute worker x => exact execute_steps h
  | finish worker now fault stuck => exact finish_steps h

/-! ### Runs -/

/-- The identifiers that are drawn are new. -/
structure Manager.Fresh (m : Manager) (evs : List ManagerEvent) : Prop where
  nodup : (evs.flatMap ManagerEvent.drawn).Nodup
  unused : ∀ id ∈ evs.flatMap ManagerEvent.drawn, m.stateOf id = none

theorem Manager.Fresh.head (h : m.Fresh (ev :: evs)) : ∀ id ∈ ev.drawn, m.stateOf id = none := by
  intro id hid
  exact h.unused id (List.mem_flatMap.mpr ⟨ev, List.mem_cons_self, hid⟩)

/-- A job that is not there appears only when its identifier is drawn. -/
theorem stateOf_step_none (h : m.Invariant cfg) (hfresh : ∀ id ∈ ev.drawn, m.stateOf id = none)
    (hnone : m.stateOf id = none) (hid : id ∉ ev.drawn) : (m.step cfg ev).stateOf id = none := by
  have hmove := (step_steps h hfresh).2 id
  rw [hnone] at hmove
  generalize (m.step cfg ev).stateOf id = state at hmove ⊢
  cases hmove with
  | same => rfl
  | submitted hdrawn => exact absurd hdrawn hid

theorem Manager.Fresh.tail (hfresh : m.Fresh (ev :: evs)) (h : m.Invariant cfg) :
    (m.step cfg ev).Fresh evs := by
  obtain ⟨hnodup, hunused⟩ := hfresh
  rw [List.flatMap_cons] at hnodup hunused
  obtain ⟨-, hnodup', hdisjoint⟩ := List.nodup_append.mp hnodup
  refine ⟨hnodup', fun id hid => ?_⟩
  refine stateOf_step_none h (fun id hid => hunused id (List.mem_append_left _ hid))
    (hunused id (List.mem_append_right _ hid)) fun hdrawn => ?_
  exact hdisjoint id hdrawn id hid rfl

theorem run_append {evs' : List ManagerEvent} :
    m.run cfg (evs ++ evs') = (m.run cfg evs).run cfg evs' := List.foldl_append

/-- A run keeps the collections in agreement, and what follows it is still new. -/
theorem run_invariant {evs' : List ManagerEvent} (h : m.Invariant cfg) (hfresh : m.Fresh (evs ++ evs')) :
    (m.run cfg evs).Invariant cfg ∧ (m.run cfg evs).Fresh evs' := by
  induction evs generalizing m with
  | nil => exact ⟨h, hfresh⟩
  | cons ev evs ih => exact ih (step_steps h hfresh.head).1 (hfresh.tail h)

theorem run_consistent (h : m.Invariant cfg) (hfresh : m.Fresh evs) : (m.run cfg evs).Invariant cfg := by
  have hfresh' : m.Fresh (evs ++ []) := by
    rw [List.append_nil]
    exact hfresh
  exact (run_invariant h hfresh').1

/-- What every step keeps of one job, a run keeps. -/
theorem run_keeps {P : Manager → Prop} (h : m.Invariant cfg) (hfresh : m.Fresh evs) (hm : P m)
    (hstep : ∀ m ev, m.Invariant cfg → ev ∈ evs → (∀ id ∈ ev.drawn, m.stateOf id = none) → P m →
      P (m.step cfg ev)) : P (m.run cfg evs) := by
  induction evs generalizing m with
  | nil => exact hm
  | cons ev evs ih =>
    refine ih (step_steps h hfresh.head).1 (hfresh.tail h) ?_ fun m ev h hev => ?_
    · exact hstep m ev h List.mem_cons_self hfresh.head hm
    · exact hstep m ev h (List.mem_cons_of_mem _ hev)

/-- A job that is there is not drawn again. -/
theorem not_drawn (hfresh : m.Fresh evs) (hid : m.stateOf id ≠ none) (hev : ev ∈ evs) :
    id ∉ ev.drawn := by
  intro hdrawn
  exact hid (hfresh.unused id (List.mem_flatMap.mpr ⟨ev, hev, hdrawn⟩))

/-- A finished job keeps its state until it is pruned. -/
theorem run_finished {state : JobState} (h : m.Invariant cfg) (hfresh : m.Fresh evs)
    (hid : m.stateOf id = some state) (hfinished : state.finished = true) :
    (m.run cfg evs).stateOf id = some state ∨ (m.run cfg evs).stateOf id = none := by
  have hnot {ev : ManagerEvent} (hev : ev ∈ evs) : id ∉ ev.drawn :=
    not_drawn hfresh (by rw [hid]; exact nofun) hev
  refine run_keeps (P := fun m => m.stateOf id = some state ∨ m.stateOf id = none) h hfresh (.inl hid) ?_
  intro m ev hm hev hdrawn hstate
  rcases hstate with hstate | hnone
  · have hmove := (step_steps hm hdrawn).2 id
    rw [hstate] at hmove
    generalize (m.step cfg ev).stateOf id = new at hmove ⊢
    cases hmove with
    | same => exact .inl rfl
    | started => cases hfinished
    | cancelled => cases hfinished
    | ended => cases hfinished
    | endedAndPruned => cases hfinished
    | pruned => exact .inr rfl
  · exact .inr (stateOf_step_none hm hdrawn hnone (hnot hev))

/-- A job that left the queue does not come back to it. -/
theorem run_not_queued (h : m.Invariant cfg) (hfresh : m.Fresh evs) (hid : m.stateOf id ≠ none)
    (hstate : m.stateOf id ≠ some .queued) : (m.run cfg evs).stateOf id ≠ some .queued := by
  have hnot {ev : ManagerEvent} (hev : ev ∈ evs) : id ∉ ev.drawn := not_drawn hfresh hid hev
  refine run_keeps (P := fun m => m.stateOf id ≠ some .queued) h hfresh hstate ?_
  intro m ev hm hev hdrawn hstate hqueued
  have hmove := (step_steps hm hdrawn).2 id
  rw [hqueued] at hmove
  generalize m.stateOf id = old at hmove hstate
  cases hmove with
  | same => exact hstate rfl
  | submitted hin => exact hnot hev hin
  | ended hfinished => cases hfinished

/-- A shutdown is not taken back. -/
theorem step_shutdown (hdown : m.shutdown = true) : (m.step cfg ev).shutdown = true := by
  -- a job is updated, and nothing else
  have hupdate (m : Manager) (id : Uuid) (f : JobSummary → JobSummary) (fault : Option String) :
      (m.updateJob id f fault).shutdown = m.shutdown := by
    obtain ⟨jobs, store, heq, -⟩ := updateJob_eq m id f fault
    rw [heq]
  cases ev with
  | submit owner schedule spec id now fault =>
    rw [Manager.step, Manager.submit, if_pos hdown]
    exact hdown
  | cancel id now fault =>
    rw [Manager.step, Manager.cancel]
    split_ifs
    · exact hdown
    · exact (hupdate ..).trans hdown
    · exact hdown
  | shutdown => rfl
  | take worker now fault =>
    rw [Manager.step, Manager.take, if_pos hdown]
    split
    · exact hdown
    · exact hdown
  | execute worker x =>
    rw [Manager.step, Manager.execute]
    split
    · exact hdown
    · exact hdown
  | finish worker now fault stuck =>
    rw [Manager.step, Manager.finish]
    split
    · exact (hupdate ..).trans hdown
    · exact hdown

/-- Once the service shuts down it does not start a job. -/
theorem run_shutdown (h : m.Invariant cfg) (hfresh : m.Fresh evs) (hdown : m.shutdown = true)
    (hid : m.stateOf id ≠ some .running) : (m.run cfg evs).stateOf id ≠ some .running := by
  have hkept := run_keeps (P := fun m => m.shutdown = true ∧ m.stateOf id ≠ some .running) h hfresh
    ⟨hdown, hid⟩ ?_
  · exact hkept.2
  intro m ev hm _ hdrawn hstate
  obtain ⟨hdown, hstate⟩ := hstate
  refine ⟨step_shutdown hdown, fun hrunning => ?_⟩
  have hmove := (step_steps hm hdrawn).2 id
  rw [hrunning] at hmove
  generalize m.stateOf id = old at hmove hstate
  cases hmove with
  | same => exact hstate rfl
  | started hup =>
    rw [hdown] at hup
    cases hup
  | ended hfinished => cases hfinished

/-! ### The start of the service -/

theorem loadJob_states {unsaved : List Uuid} {acc : Std.TreeMap Uuid JobSummary × JobStore}
    {jobs : List JobSummary}
    (hacc : ∀ (id : Uuid) (j : JobSummary), acc.1[id]? = some j → j.id = id ∧ j.state.finished = true)
    (id : Uuid) (j : JobSummary) (hj : (jobs.foldl (loadJob now unsaved) acc).1[id]? = some j) :
    j.id = id ∧ j.state.finished = true := by
  induction jobs generalizing acc with
  | nil => exact hacc id j hj
  | cons first jobs ih =>
    refine ih ?_ hj
    intro id' j' hj'
    unfold loadJob at hj'
    dsimp only at hj'
    split at hj'
    · rename_i hfinished
      rw [getElem?_insert_ite] at hj'
      split at hj'
      · rename_i hid
        cases hj'
        exact ⟨hid.symm, hfinished⟩
      · exact hacc id' j' hj'
    -- a job that was not finished is loaded as failed
    · rw [getElem?_insert_ite] at hj'
      split at hj'
      · rename_i hid
        cases hj'
        exact ⟨hid.symm, rfl⟩
      · exact hacc id' j' hj'

/-- A service that starts has no job that is not finished. -/
theorem new_states {store : JobStore} {unsaved : List Uuid} (id : Uuid) (j : JobSummary)
    (hj : (Manager.new cfg store now unsaved).jobs[id]? = some j) :
    j.id = id ∧ j.state.finished = true := by
  refine loadJob_states ?_ id j hj
  intro id j hj
  simp at hj

theorem new_invariant (cfg : ServiceConfig) (store : JobStore) (now : OffsetDateTime) (unsaved : List Uuid) :
    (Manager.new cfg store now unsaved).Invariant cfg := by
  -- jobs that are loaded are finished
  have hnot (id : Uuid) {state : JobState} (hstate : state.finished = false) :
      (Manager.new cfg store now unsaved).stateOf id ≠ some state := by
    intro heq
    obtain ⟨j, hj, rfl⟩ := stateOf_eq_some.mp heq
    rw [(new_states id j hj).2] at hstate
    cases hstate
  have hjobOf (worker : ℕ) : (Manager.new cfg store now unsaved).jobOf worker = none := by
    change (List.replicate cfg.maxConcurrentJobs Worker.waiting)[worker]?.bind Worker.job = none
    rw [List.getElem?_replicate]
    split <;> rfl
  refine ⟨fun id => ⟨?_, ?_, ?_, ?_, ?_⟩, fun id j hj => (new_states id j hj).1, List.nodup_nil,
    fun worker id result hw => ?_, List.length_replicate, Nat.zero_le _, nofun⟩
  · exact iff_of_false List.not_mem_nil (hnot id rfl)
  · exact iff_of_false Std.TreeMap.not_mem_emptyc (hnot id rfl)
  · exact iff_of_false Std.TreeMap.not_mem_emptyc (hnot id rfl)
  · exact iff_of_false (hnot id rfl) (by simp [hjobOf])
  · intro worker _ hw
    rw [hjobOf] at hw
    cases hw
  · change (List.replicate cfg.maxConcurrentJobs Worker.waiting)[worker]? = _ at hw
    rw [List.getElem?_replicate] at hw
    split at hw <;> cases hw

/-! ### What clients can rely on -/

/-- How the collections agree, as far as clients see it. -/
structure Manager.Consistent (cfg : ServiceConfig) (m : Manager) : Prop where
  queue : ∀ id, m.stateOf id = some .queued ↔ m.queue.count id = 1
  specs : ∀ id, m.stateOf id = some .queued ↔ id ∈ m.specs
  cancels : ∀ id, m.stateOf id = some .running ↔ id ∈ m.cancels
  queue_le : m.queue.length ≤ cfg.maxQueuedJobs
  running_le : ((jobList m.jobs).filter fun j => j.state = .running).length ≤ cfg.maxConcurrentJobs
  flags : m.shutdown = true → ∀ id, m.stateOf id = some .running → m.cancels[id]? = some true

theorem jobList_ids (hkeyed : ∀ (id : Uuid) (j : JobSummary), m.jobs[id]? = some j → j.id = id) :
    (jobList m.jobs).Pairwise fun j j' => j.id < j'.id := by
  have hordered := Std.TreeMap.ordered_keys_toList (t := m.jobs)
  rw [jobList, List.pairwise_map]
  refine List.Pairwise.imp_of_mem ?_ hordered
  intro a b ha hb hlt
  rw [hkeyed a.1 a.2 (Std.TreeMap.mem_toList_iff_getElem?_eq_some.mp ha),
    hkeyed b.1 b.2 (Std.TreeMap.mem_toList_iff_getElem?_eq_some.mp hb)]
  exact compareOfLessAndEq_eq_lt.mp hlt

/-- Every running job has a worker of its own. -/
theorem running_le (h : m.Invariant cfg) :
    ((jobList m.jobs).filter fun j => j.state = .running).length ≤ cfg.maxConcurrentJobs := by
  have hnodup : (((jobList m.jobs).filter fun j => j.state = .running).map JobSummary.id).Nodup := by
    refine List.pairwise_map.mpr (((jobList_ids h.keyed).filter _).imp fun hlt heq => ?_)
    rw [heq] at hlt
    exact BitVec.lt_irrefl _ hlt
  have hsubset : ((jobList m.jobs).filter fun j => j.state = .running).map JobSummary.id ⊆
      m.workers.filterMap Worker.job := by
    intro id hid
    obtain ⟨j, hj, rfl⟩ := List.mem_map.mp hid
    obtain ⟨hj, hrunning⟩ := List.mem_filter.mp hj
    obtain ⟨id, hj⟩ := mem_jobList.mp hj
    rw [h.keyed id j hj]
    have hstate : m.stateOf id = some .running := stateOf_eq_some.mpr ⟨j, hj, of_decide_eq_true hrunning⟩
    obtain ⟨worker, hjob⟩ := (h.placed id).workers.mp hstate
    obtain ⟨w, hw, hjob⟩ := Option.bind_eq_some_iff.mp hjob
    exact List.mem_filterMap.mpr ⟨w, List.mem_of_getElem? hw, hjob⟩
  calc ((jobList m.jobs).filter fun j => j.state = .running).length
      = (((jobList m.jobs).filter fun j => j.state = .running).map JobSummary.id).length :=
        (List.length_map _).symm
    _ ≤ (m.workers.filterMap Worker.job).length := (List.subperm_of_subset hnodup hsubset).length_le
    _ ≤ m.workers.length := List.length_filterMap_le ..
    _ = cfg.maxConcurrentJobs := h.count

theorem Manager.Invariant.consistent (h : m.Invariant cfg) : m.Consistent cfg where
  queue id := by
    rw [← (h.placed id).queue, ← List.count_pos_iff]
    have hle := List.nodup_iff_count_le_one.mp h.nodup id
    omega
  specs id := (h.placed id).specs.symm
  cancels id := (h.placed id).cancels.symm
  queue_le := h.bound
  running_le := running_le h
  flags hdown id hid := by
    have hin := (h.placed id).cancels.mpr hid
    obtain ⟨flag, hflag⟩ := Option.isSome_iff_exists.mp (Std.TreeMap.isSome_getElem?_iff_mem.mpr hin)
    rw [hflag, h.flags hdown id flag hflag]

theorem Manager.Fresh.before {evs' : List ManagerEvent} (h : m.Fresh (evs ++ evs')) : m.Fresh evs where
  nodup := by
    have hnodup := h.nodup
    rw [List.flatMap_append] at hnodup
    exact (List.nodup_append.mp hnodup).1
  unused id hid := h.unused id (by rw [List.flatMap_append]; exact List.mem_append_left _ hid)

/-- A queued job that is cancelled is at once, and does not run before or afterwards. -/
theorem cancel_queued {before after p : List ManagerEvent} (h : m.Invariant cfg)
    (hfresh : m.Fresh (before ++ .cancel id now fault :: after))
    (hid : (m.run cfg before).stateOf id = some .queued) :
    ((m.run cfg before).cancel id now fault).1 = .ok () ∧
      (m.run cfg (before ++ [.cancel id now fault])).stateOf id = some .cancelled ∧
      (p <+: before ++ .cancel id now fault :: after → (m.run cfg p).stateOf id ≠ some .running) := by
  obtain ⟨hbefore, hrest⟩ := run_invariant h hfresh
  have hplaced := hbefore.placed id
  have hqueue : id ∈ (m.run cfg before).queue := hplaced.queue.mpr hid
  have hcancels : ¬ (m.run cfg before).cancels.contains id = true := by
    intro hin
    rw [hplaced.cancels.mp hin] at hid
    cases hid
  have hcancel : (m.run cfg before).cancel id now fault = (.ok (), Manager.updateJob
      { m.run cfg before with
        queue := (m.run cfg before).queue.erase id
        specs := (m.run cfg before).specs.erase id } id
      (fun j => { j with state := .cancelled, finishedAt := some now }) fault) := by
    rw [Manager.cancel, if_neg hcancels, if_pos (List.contains_iff_mem.mpr hqueue)]
  have hcancelled : (m.run cfg (before ++ [.cancel id now fault])).stateOf id = some .cancelled := by
    rw [run_append]
    change ((m.run cfg before).cancel id now fault).2.stateOf id = _
    rw [hcancel]
    obtain ⟨jobs, store, heq, hjobs⟩ := updateJob_eq { m.run cfg before with
        queue := (m.run cfg before).queue.erase id
        specs := (m.run cfg before).specs.erase id } id
      (fun j => { j with state := .cancelled, finishedAt := some now }) fault
    dsimp only
    rw [heq]
    exact (hjobs.states (fun _ => (rfl : JobState.cancelled = .cancelled)) hid id).trans (if_pos rfl)
  -- a prefix of the run ends before the cancellation or after it
  refine ⟨by rw [hcancel], hcancelled, fun hp hrunning => ?_⟩
  rcases List.prefix_or_prefix_of_prefix hp (List.prefix_append before _) with hshort | hlong
  · -- before the job is cancelled it is queued, so it was not running earlier
    obtain ⟨rest, rfl⟩ := hshort
    obtain ⟨hp, hfresh'⟩ := run_invariant h hfresh.before
    rw [run_append] at hid
    exact run_not_queued hp hfresh' (by rw [hrunning]; exact nofun) (by rw [hrunning]; exact nofun) hid
  · obtain ⟨rest, rfl⟩ := hlong
    rw [List.prefix_append_right_inj] at hp
    cases rest with
    | nil =>
      rw [List.append_nil, hid] at hrunning
      cases hrunning
    | cons ev rest =>
      obtain ⟨rfl, hp'⟩ := List.cons_prefix_cons.mp hp
      obtain ⟨last, rfl⟩ := hp'
      have hsplit : before ++ .cancel id now fault :: (rest ++ last) =
          (before ++ [.cancel id now fault]) ++ (rest ++ last) := by simp
      rw [hsplit] at hfresh
      obtain ⟨hinv, hfresh'⟩ := run_invariant h hfresh
      have hsplit' : before ++ .cancel id now fault :: rest =
          (before ++ [.cancel id now fault]) ++ rest := by simp
      rw [hsplit', run_append] at hrunning
      -- afterwards the job stays cancelled, or it was removed from the history
      rcases run_finished hinv hfresh'.before hcancelled rfl with hstill | hgone
      · rw [hstill] at hrunning
        cases hrunning
      · rw [hgone] at hrunning
        cases hrunning

/-- Once a shutdown has come between these events, running jobs are told to stop, no other job starts and none is
accepted. -/
structure Manager.ShutsDown (cfg : ServiceConfig) (m : Manager) (before after : List ManagerEvent) : Prop where
  told : ∀ id, (m.run cfg before).stateOf id = some .running →
    (m.run cfg (before ++ [.shutdown])).cancels[id]? = some true
  started : ∀ p, p <+: after → ∀ id, (m.run cfg (before ++ .shutdown :: p)).stateOf id = some .running →
    (m.run cfg before).stateOf id = some .running ∧ (m.run cfg (before ++ .shutdown :: p)).cancels[id]? = some true
  refused : ∀ p, p <+: after → ∀ owner schedule spec id now fault,
    ((m.run cfg (before ++ .shutdown :: p)).submit cfg owner schedule spec id now fault).1 =
      .error ⟨.busy, "the service is shutting down"⟩

theorem run_shutdown_append {before p : List ManagerEvent} :
    m.run cfg (before ++ .shutdown :: p) = (m.run cfg before).beginShutdown.run cfg p := by
  rw [run_append]
  rfl

theorem Manager.Invariant.shutsDown {before after : List ManagerEvent} (h : m.Invariant cfg)
    (hfresh : m.Fresh (before ++ .shutdown :: after)) : m.ShutsDown cfg before after := by
  obtain ⟨hbefore, hrest⟩ := run_invariant h hfresh
  have hbegun : (m.run cfg before).beginShutdown.Invariant cfg := (step_steps hbefore hrest.head).1
  have hdown {p : List ManagerEvent} (hp : p <+: after) :
      ((m.run cfg before).beginShutdown.run cfg p).Invariant cfg ∧
        ((m.run cfg before).beginShutdown.run cfg p).shutdown = true ∧
        ∀ id, ((m.run cfg before).beginShutdown.run cfg p).stateOf id = some .running →
          (m.run cfg before).stateOf id = some .running := by
    obtain ⟨rest, rfl⟩ := hp
    have hfresh' : (m.run cfg before).beginShutdown.Fresh p := (hrest.tail hbefore).before
    refine ⟨run_consistent hbegun hfresh', ?_, fun id hrunning => ?_⟩
    · exact run_keeps (P := fun m => m.shutdown = true) hbegun hfresh' rfl fun _ _ _ _ _ hm => step_shutdown hm
    · by_contra hid
      exact run_shutdown hbegun hfresh' rfl hid hrunning
  refine ⟨fun id hrunning => ?_, fun p hp id hrunning => ?_, fun p hp owner schedule spec id now fault => ?_⟩
  · rw [run_shutdown_append]
    exact hbegun.consistent.flags rfl id hrunning
  · rw [run_shutdown_append] at hrunning ⊢
    obtain ⟨hinv, hshut, hkept⟩ := hdown hp
    exact ⟨hkept id hrunning, hinv.consistent.flags hshut id hrunning⟩
  · rw [run_shutdown_append, Manager.submit, if_pos (hdown hp).2.1]

/-- In every interleaving of clients and workers the collections agree; a finished job stays as it is; a queued job that
is cancelled never runs; and after a shutdown no job starts, and the running ones are told to stop. -/
theorem job_manager_invariant (cfg : ServiceConfig) (store : JobStore) (now : OffsetDateTime)
    (unsaved : List Uuid) (evs : List ManagerEvent)
    (hfresh : (Manager.new cfg store now unsaved).Fresh evs) :
    ((Manager.new cfg store now unsaved).run cfg evs).Consistent cfg ∧
      (∀ before after, evs = before ++ after → ∀ id state state', state.finished = true →
        ((Manager.new cfg store now unsaved).run cfg before).stateOf id = some state →
        ((Manager.new cfg store now unsaved).run cfg evs).stateOf id = some state' → state' = state) ∧
      (∀ before after, evs = before ++ .shutdown :: after →
        (Manager.new cfg store now unsaved).ShutsDown cfg before after) ∧
      ∀ before id time fault after, evs = before ++ .cancel id time fault :: after →
        ((Manager.new cfg store now unsaved).run cfg before).stateOf id = some .queued →
        (((Manager.new cfg store now unsaved).run cfg before).cancel id time fault).1 = .ok () ∧
          ((Manager.new cfg store now unsaved).run cfg (before ++ [.cancel id time fault])).stateOf id =
            some .cancelled ∧
          ∀ p, p <+: evs →
            ((Manager.new cfg store now unsaved).run cfg p).stateOf id ≠ some .running := by
  have hnew : (Manager.new cfg store now unsaved).Invariant cfg := new_invariant ..
  generalize Manager.new cfg store now unsaved = start at hfresh hnew ⊢
  refine ⟨?_, fun before after heq id state state' hfinished hold hlast => ?_, fun before after heq => ?_,
    fun before id time fault after heq hid => ?_⟩
  · exact (run_consistent hnew hfresh).consistent
  · subst heq
    obtain ⟨hinv, hrest⟩ := run_invariant hnew hfresh
    rw [run_append] at hlast
    -- the job is as it was, or it was pruned
    rcases run_finished hinv hrest hold hfinished with hstill | hgone
    · rw [hstill] at hlast
      exact (Option.some.inj hlast).symm
    · rw [hgone] at hlast
      cases hlast
  · subst heq
    exact hnew.shutsDown hfresh
  · subst heq
    have hall (p : List ManagerEvent) := cancel_queued (p := p) hnew hfresh hid
    exact ⟨(hall []).1, (hall []).2.1, fun p => (hall p).2.2⟩

/-- A job runs while another is submitted. -/
def submittedSample : List ManagerEvent :=
  runSample 5 10 ++ [.submit "0" none sampleSpec 3 (onSep25 20) none]

/-- The other is cancelled, and then the service shuts down. -/
def cancelledSample : List ManagerEvent :=
  submittedSample ++ .cancel 3 (onSep25 30) none :: [.shutdown, finishSample 40]

theorem cancelledSample_fresh : freshService.Fresh cancelledSample :=
  ⟨by decide, fun _ _ => rfl⟩

theorem job_manager_invariant_sample :
    (freshService.run smallConfig cancelledSample).Consistent smallConfig ∧
      (freshService.run smallConfig (submittedSample ++ [.cancel 3 (onSep25 30) none, .shutdown])).cancels[(5 : Uuid)]? =
        some true ∧
      ∀ p, p <+: cancelledSample → (freshService.run smallConfig p).stateOf 3 ≠ some .running := by
  obtain ⟨hconsistent, -, hshutdown, hcancel⟩ := job_manager_invariant smallConfig ⟨∅, ∅⟩ (onSep25 0) []
    cancelledSample cancelledSample_fresh
  have hqueued : (freshService.run smallConfig submittedSample).stateOf 3 = some .queued := by
    decide
  have hrunning : (freshService.run smallConfig (submittedSample ++ [.cancel 3 (onSep25 30) none])).stateOf 5 =
      some .running := by
    decide
  have hshut : freshService.ShutsDown smallConfig (submittedSample ++ [.cancel 3 (onSep25 30) none]) [finishSample 40] :=
    hshutdown _ _ rfl
  exact ⟨hconsistent, hshut.told 5 hrunning,
    (hcancel submittedSample 3 (onSep25 30) none [.shutdown, finishSample 40] rfl hqueued).2.2⟩

end AbyssalWarden
