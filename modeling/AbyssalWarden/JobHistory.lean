import AbyssalWarden.JobInvariant

/-! Which finished jobs are kept. Pruning takes them in the order of their identifiers, which are random. -/
namespace AbyssalWarden

open Manager

variable {cfg : ServiceConfig} {m : Manager} {id : Uuid} {stuck : JobStore.Stuck} {store : JobStore}

namespace Manager

def finishedJobs (m : Manager) : List JobSummary := (jobList m.jobs).filter fun j => j.state.finished

/-- The finished jobs beyond the limit, in the order that pruning takes them. -/
def excess (m : Manager) (limit : ℕ) : List JobSummary :=
  m.finishedJobs.take (m.finishedJobs.length - limit)

/-- The finished jobs within the limit. -/
def rest (m : Manager) (limit : ℕ) : List JobSummary :=
  m.finishedJobs.drop (m.finishedJobs.length - limit)

/-- Of the finished jobs the newest are kept, and the one that just finished is not removed, nor is its
report, while an older one stays. -/
structure KeepsNewest (limit : ℕ) (id : Uuid) (before after : Manager) : Prop where
  count : after.finishedJobs.length = min limit before.finishedJobs.length
  newest : ∀ a ∈ before.finishedJobs, a ∉ after.finishedJobs →
    ∀ b ∈ after.finishedJobs, a.createdAt ≤ b.createdAt
  latest : ∀ j : JobSummary, before.jobs[id]? = some j → (j ∉ after.finishedJobs ∨
      before.store.reports[id]? ≠ none ∧ after.store.reports[id]? = none) →
    ∀ b ∈ after.finishedJobs, j.createdAt ≤ b.createdAt

/-- No job beyond the limit was created after one within it, and their records can be removed. -/
structure Aligned (limit : ℕ) (stuck : JobStore.Stuck) (m : Manager) : Prop where
  removable : ∀ a ∈ m.excess limit, m.store.removable stuck a.id = true
  ordered : ∀ a ∈ m.excess limit, ∀ b ∈ m.rest limit, a.createdAt ≤ b.createdAt

end Manager

/-! ### What pruning removes -/

theorem removeJob_removable {j : JobSummary} {removed : List Uuid} (hne : id ≠ j.id) :
    (JobStore.removeJob stuck (removed, store) j).2.removable stuck id = store.removable stuck id := by
  unfold JobStore.removeJob JobStore.removable
  dsimp only
  split
  · dsimp only
    have hcontains : (store.jobs.erase j.id).contains id = store.jobs.contains id := by
      rw [Bool.eq_iff_iff, Std.TreeMap.contains_iff_mem, Std.TreeMap.contains_iff_mem, mem_erase_and,
        and_iff_right hne]
    rw [hcontains]
  · rfl

/-- The records that can be removed are. -/
theorem removeJobs_eq (store : JobStore) {jobs : List JobSummary} (removed : List Uuid)
    (hnodup : jobs.Pairwise fun j j' => j.id ≠ j'.id) :
    (jobs.foldl (JobStore.removeJob stuck) (removed, store)).1 =
      removed ++ (jobs.filter fun j => store.removable stuck j.id).map JobSummary.id := by
  induction jobs generalizing removed store with
  | nil => simp
  | cons j jobs ih =>
    rw [List.pairwise_cons] at hnodup
    obtain ⟨hj, hnodup⟩ := hnodup
    have hfilter : (jobs.filter fun j' =>
        (JobStore.removeJob stuck (removed, store) j).2.removable stuck j'.id) =
          jobs.filter fun j' => store.removable stuck j'.id := by
      refine List.filter_congr fun j' hj' => ?_
      exact removeJob_removable (hj j' hj').symm
    rw [List.foldl_cons]
    have hstep := ih (JobStore.removeJob stuck (removed, store) j).2 (JobStore.removeJob stuck (removed, store) j).1
      hnodup
    rw [hfilter] at hstep
    refine hstep.trans ?_
    by_cases hremovable : store.removable stuck j.id = true
    · simp [JobStore.removeJob, hremovable]
    · simp [JobStore.removeJob, hremovable]

/-- A report goes only with a job of the list. -/
theorem removeJobs_reports {jobs : List JobSummary} {acc : List Uuid × JobStore}
    (hid : ∀ j ∈ jobs, j.id ≠ id) :
    (jobs.foldl (JobStore.removeJob stuck) acc).2.reports[id]? = acc.2.reports[id]? := by
  induction jobs generalizing acc with
  | nil => rfl
  | cons j jobs ih =>
    rw [List.foldl_cons, ih fun j' hj' => hid j' (List.mem_cons_of_mem _ hj')]
    have hne := hid j List.mem_cons_self
    unfold JobStore.removeJob
    dsimp only
    split <;> split <;> simp [getElem?_erase_ite, hne.symm]

theorem mem_finishedJobs (hkeyed : ∀ (id : Uuid) (j : JobSummary), m.jobs[id]? = some j → j.id = id)
    {j : JobSummary} : j ∈ m.finishedJobs ↔ m.jobs[j.id]? = some j ∧ j.state.finished = true := by
  rw [Manager.finishedJobs, List.mem_filter, mem_jobList]
  constructor
  · intro h
    obtain ⟨⟨id, hj⟩, hfinished⟩ := h
    exact ⟨(hkeyed id j hj).symm ▸ hj, hfinished⟩
  · intro h
    exact ⟨⟨j.id, h.1⟩, h.2⟩

theorem finishedJobs_ids (hkeyed : ∀ (id : Uuid) (j : JobSummary), m.jobs[id]? = some j → j.id = id) :
    m.finishedJobs.Pairwise fun j j' => j.id ≠ j'.id := by
  refine ((jobList_ids hkeyed).filter _).imp fun hlt heq => ?_
  rw [heq] at hlt
  exact BitVec.lt_irrefl _ hlt

theorem finishedJobs_nodup
    (hkeyed : ∀ (id : Uuid) (j : JobSummary), m.jobs[id]? = some j → j.id = id) :
    m.finishedJobs.Nodup :=
  (finishedJobs_ids hkeyed).imp fun hne heq => hne (congrArg JobSummary.id heq)

theorem excess_append_rest (m : Manager) (limit : ℕ) : m.excess limit ++ m.rest limit = m.finishedJobs :=
  List.take_append_drop ..

theorem rest_length (m : Manager) (limit : ℕ) :
    (m.rest limit).length = min limit m.finishedJobs.length := by
  rw [Manager.rest, List.length_drop]
  omega

theorem prune_jobs
    (hkeyed : ∀ (id : Uuid) (j : JobSummary), m.jobs[id]? = some j → j.id = id) (id : Uuid) :
    (m.prune cfg stuck).jobs[id]? =
      if id ∈ ((m.excess cfg.historyLimit).filter fun j => m.store.removable stuck j.id).map
        JobSummary.id then none else m.jobs[id]? := by
  have hremoved : (m.store.prune (jobList m.jobs) cfg.historyLimit stuck).1 =
      ((m.excess cfg.historyLimit).filter fun j => m.store.removable stuck j.id).map JobSummary.id := by
    have hids := (finishedJobs_ids hkeyed).sublist
      (List.take_sublist (m.finishedJobs.length - cfg.historyLimit) _)
    exact (removeJobs_eq m.store [] hids).trans (List.nil_append _)
  rw [← hremoved]
  exact getElem?_foldl_erase

variable (hkeyed : ∀ (id : Uuid) (j : JobSummary), m.jobs[id]? = some j → j.id = id)
include hkeyed

theorem eq_of_id {a b : JobSummary} (ha : a ∈ m.finishedJobs) (hb : b ∈ m.finishedJobs)
    (hid : a.id = b.id) : a = b := by
  have ha' := ((mem_finishedJobs hkeyed).mp ha).1
  have hb' := ((mem_finishedJobs hkeyed).mp hb).1
  rw [hid, hb'] at ha'
  exact (Option.some.inj ha').symm

theorem not_mem_rest {a : JobSummary} {limit : ℕ} (ha : a ∈ m.excess limit) : a ∉ m.rest limit := by
  intro hrest
  have hnodup := finishedJobs_nodup hkeyed
  rw [← excess_append_rest m limit] at hnodup
  exact (List.nodup_append.mp hnodup).2.2 a ha a hrest rfl

/-- What stays is what is within the limit, and what is beyond it but cannot be removed. -/
theorem mem_finishedJobs_prune {j : JobSummary} : j ∈ (m.prune cfg stuck).finishedJobs ↔
    (j ∈ m.excess cfg.historyLimit ∧ m.store.removable stuck j.id = false) ∨
      j ∈ m.rest cfg.historyLimit := by
  have hkeyed' : ∀ (id : Uuid) (j : JobSummary), (m.prune cfg stuck).jobs[id]? = some j → j.id = id := by
    intro id j hj
    rw [prune_jobs hkeyed] at hj
    split at hj
    · cases hj
    · exact hkeyed id j hj
  have hall : j ∈ m.finishedJobs ↔ j ∈ m.excess cfg.historyLimit ∨ j ∈ m.rest cfg.historyLimit := by
    rw [← excess_append_rest m cfg.historyLimit, List.mem_append]
  -- identifiers are distinct, so the job of a removed file is the one meant
  have hgone : j ∈ m.finishedJobs → (j.id ∈ ((m.excess cfg.historyLimit).filter fun j =>
      m.store.removable stuck j.id).map JobSummary.id ↔
        j ∈ m.excess cfg.historyLimit ∧ m.store.removable stuck j.id = true) := by
    intro hj
    rw [List.mem_map]
    constructor
    · intro h
      obtain ⟨j', hj', hid⟩ := h
      obtain ⟨hexcess, hremovable⟩ := List.mem_filter.mp hj'
      have hsame : j' = j := eq_of_id hkeyed (List.mem_of_mem_take hexcess) hj hid
      exact hsame ▸ ⟨hexcess, hremovable⟩
    · intro h
      exact ⟨j, List.mem_filter.mpr h, rfl⟩
  rw [mem_finishedJobs hkeyed', prune_jobs hkeyed]
  constructor
  · intro h
    obtain ⟨hj, hfinished⟩ := h
    split at hj
    · cases hj
    · rename_i hstays
      have hin : j ∈ m.finishedJobs := (mem_finishedJobs hkeyed).mpr ⟨hj, hfinished⟩
      rw [hgone hin] at hstays
      -- it stays although it is beyond the limit: its file could not be removed
      rcases hall.mp hin with hexcess | hrest
      · exact .inl ⟨hexcess, by simpa [hexcess] using hstays⟩
      · exact .inr hrest
  · intro h
    have hin : j ∈ m.finishedJobs := hall.mpr (h.imp_left And.left)
    have hstays : ¬ (j ∈ m.excess cfg.historyLimit ∧ m.store.removable stuck j.id = true) := by
      intro hremoved
      rcases h with hstuck | hrest
      · rw [hstuck.2] at hremoved
        cases hremoved.2
      · exact not_mem_rest hkeyed hremoved.1 hrest
    rw [if_neg (mt (hgone hin).mp hstays)]
    exact (mem_finishedJobs hkeyed).mp hin

theorem prune_keyed (id : Uuid) (j : JobSummary) (hj : (m.prune cfg stuck).jobs[id]? = some j) :
    j.id = id := by
  rw [prune_jobs hkeyed] at hj
  split at hj
  · cases hj
  · exact hkeyed id j hj

/-- As many jobs stay as the limit says exactly if all beyond it can be removed. -/
theorem prune_count_iff :
    (m.prune cfg stuck).finishedJobs.length = min cfg.historyLimit m.finishedJobs.length ↔
      ∀ a ∈ m.excess cfg.historyLimit, m.store.removable stuck a.id = true := by
  have hnodup := finishedJobs_nodup hkeyed
  rw [← excess_append_rest m cfg.historyLimit] at hnodup
  obtain ⟨hexcess, hrest, hdisjoint⟩ := List.nodup_append.mp hnodup
  have hperm : (m.prune cfg stuck).finishedJobs.Perm (((m.excess cfg.historyLimit).filter fun a =>
      !m.store.removable stuck a.id) ++ m.rest cfg.historyLimit) := by
    refine (List.perm_ext_iff_of_nodup (finishedJobs_nodup (prune_keyed hkeyed)) ?_).mpr fun j => ?_
    · exact List.nodup_append.mpr ⟨hexcess.filter _, hrest, fun a ha => hdisjoint a (List.mem_of_mem_filter ha)⟩
    · rw [mem_finishedJobs_prune hkeyed, List.mem_append, List.mem_filter, Bool.not_eq_true']
  rw [hperm.length_eq, List.length_append, rest_length]
  constructor
  · intro hcount a ha
    have hempty : ((m.excess cfg.historyLimit).filter fun a => !m.store.removable stuck a.id) = [] :=
      List.eq_nil_of_length_eq_zero (by omega)
    simpa using List.filter_eq_nil_iff.mp hempty a ha
  · intro hall
    have hempty : ((m.excess cfg.historyLimit).filter fun a => !m.store.removable stuck a.id) = [] :=
      List.filter_eq_nil_iff.mpr fun a ha => by simp [hall a ha]
    rw [hempty, List.length_nil, Nat.zero_add]

/-- Pruning keeps the newest jobs exactly if the order of the identifiers says which they are. -/
theorem prune_keepsNewest_iff (hid : ∃ state, m.stateOf id = some state ∧ state.finished = true) :
    KeepsNewest cfg.historyLimit id m (m.prune cfg stuck) ↔ m.Aligned cfg.historyLimit stuck := by
  constructor
  · intro h
    have hremovable := (prune_count_iff hkeyed).mp h.count
    refine ⟨hremovable, fun a ha b hb => ?_⟩
    refine h.newest a (List.mem_of_mem_take ha) (fun hkept => ?_) b
      ((mem_finishedJobs_prune hkeyed).mpr (.inr hb))
    rcases (mem_finishedJobs_prune hkeyed).mp hkept with hstuck | hrest
    · rw [hremovable a ha] at hstuck
      cases hstuck.2
    · exact not_mem_rest hkeyed ha hrest
  · intro h
    -- a job that stays is within the limit, and one that does not is beyond it
    have hstays {b : JobSummary} (hb : b ∈ (m.prune cfg stuck).finishedJobs) :
        b ∈ m.rest cfg.historyLimit := by
      rcases (mem_finishedJobs_prune hkeyed).mp hb with hstuck | hrest
      · rw [h.removable b hstuck.1] at hstuck
        cases hstuck.2
      · exact hrest
    have hgoes {a : JobSummary} (ha : a ∈ m.finishedJobs)
        (hgone : a ∉ (m.prune cfg stuck).finishedJobs) : a ∈ m.excess cfg.historyLimit := by
      rw [← excess_append_rest m cfg.historyLimit, List.mem_append] at ha
      exact ha.resolve_right fun hrest => hgone ((mem_finishedJobs_prune hkeyed).mpr (.inr hrest))
    refine ⟨(prune_count_iff hkeyed).mpr h.removable, fun a ha hgone b hb => ?_, fun j hj hgone b hb => ?_⟩
    · exact h.ordered a (hgoes ha hgone) b (hstays hb)
    · obtain ⟨state, hstate, hfinished⟩ := hid
      obtain ⟨j', hj', hstate⟩ := stateOf_eq_some.mp hstate
      obtain rfl : j' = j := Option.some.inj (hj'.symm.trans hj)
      have hin : j' ∈ m.finishedJobs :=
        (mem_finishedJobs hkeyed).mpr ⟨(hkeyed id j' hj).symm ▸ hj, hstate ▸ hfinished⟩
      refine h.ordered j' ?_ b (hstays hb)
      rcases hgone with hgone | ⟨hreport, hgone⟩
      · exact hgoes hin hgone
      · by_contra hnot
        apply hreport
        rw [← hgone]
        symm
        change ((m.excess cfg.historyLimit).foldl (JobStore.removeJob stuck) ([], m.store)).2.reports[id]? = _
        refine removeJobs_reports fun a ha heq => hnot ?_
        have hsame : a = j' := eq_of_id hkeyed (List.mem_of_mem_take ha) hin
          (heq.trans (hkeyed id j' hj).symm)
        exact hsame ▸ ha

omit hkeyed

/-! ### In every reachable state -/

/-- When a job ends after any run, the newest finished jobs are kept exactly if no job beyond the limit, in
the order of identifiers, was created after one within it, and the records beyond it can be removed. -/
theorem history_keeps_newest_iff (cfg : ServiceConfig) (store : JobStore) (now : OffsetDateTime)
    (unsaved : List Uuid) (evs : List ManagerEvent)
    (hfresh : (Manager.new cfg store now unsaved).Fresh evs) (worker : ℕ) (id : Uuid)
    (result : JobResult) (time : OffsetDateTime) (fault : Option String) (stuck : JobStore.Stuck)
    (hfinishing : ((Manager.new cfg store now unsaved).run cfg evs).workers[worker]? =
      some (.finishing id result)) :
    KeepsNewest cfg.historyLimit id
        (((Manager.new cfg store now unsaved).run cfg evs).endJob id result time fault)
        (((Manager.new cfg store now unsaved).run cfg evs).finish cfg worker time fault stuck) ↔
      (((Manager.new cfg store now unsaved).run cfg evs).endJob id result time fault).Aligned
        cfg.historyLimit stuck := by
  have hinv := run_consistent (new_invariant cfg store now unsaved) hfresh
  generalize (Manager.new cfg store now unsaved).run cfg evs = m at hinv hfinishing ⊢
  have hjob : m.jobOf worker = some id := by rw [Manager.jobOf, hfinishing]; rfl
  have hrunning : m.stateOf id = some .running := (hinv.placed id).workers.mpr ⟨worker, hjob⟩
  obtain ⟨jobs, store', heq, hjobs⟩ := updateJob_eq { m with cancels := m.cancels.erase id } id
    (fun j => result.apply { j with finishedAt := some time }) fault
  -- when the history is pruned, the job has ended
  have hended : (m.endJob id result time fault).stateOf id = some result.state := by
    rw [Manager.endJob, heq]
    exact (hjobs.states (fun _ => (rfl : result.state = result.state)) hrunning id).trans (if_pos rfl)
  have hkeyed : ∀ (id' : Uuid) (j : JobSummary), (m.endJob id result time fault).jobs[id']? = some j →
      j.id = id' := by
    rw [Manager.endJob, heq]
    exact hjobs.keyed (fun _ => rfl) hinv.keyed
  have hfinish : m.finish cfg worker time fault stuck =
      ((m.endJob id result time fault).prune cfg stuck).setWorker worker .waiting := by
    rw [Manager.finish, hfinishing]
  rw [hfinish, ← prune_keepsNewest_iff hkeyed ⟨result.state, hended, hinv.results worker id result hfinishing⟩]
  exact ⟨fun h => ⟨h.count, h.newest, h.latest⟩, fun h => ⟨h.count, h.newest, h.latest⟩⟩

/-- Two jobs, one after the other; the second has the smaller identifier. -/
def secondSample : List ManagerEvent := runSample 5 10 ++ [finishSample 20] ++ runSample 3 30

theorem secondSample_fresh : freshService.Fresh secondSample := ⟨by decide, fun _ _ => rfl⟩

def sampleResult : JobResult := (sampleExecution.result smallConfig .systemCheck).1

theorem secondSample_finishing :
    (freshService.run smallConfig secondSample).workers[0]? = some (.finishing 3 sampleResult) := rfl

theorem history_keeps_newest_iff_sample :
    KeepsNewest smallConfig.historyLimit 3
        ((freshService.run smallConfig secondSample).endJob 3 sampleResult (onSep25 40) none)
        ((freshService.run smallConfig secondSample).finish smallConfig 0 (onSep25 40) none ⟨[], []⟩) ↔
      ((freshService.run smallConfig secondSample).endJob 3 sampleResult (onSep25 40) none).Aligned
        smallConfig.historyLimit ⟨[], []⟩ :=
  history_keeps_newest_iff smallConfig ⟨∅, ∅⟩ (onSep25 0) [] secondSample secondSample_fresh 0 3
    sampleResult (onSep25 40) none ⟨[], []⟩ secondSample_finishing

/-- The job that just finished is removed, and the older one kept. -/
theorem latest_job_pruned : ¬ ∀ (cfg : ServiceConfig) (store : JobStore) (now : OffsetDateTime)
    (unsaved : List Uuid) (evs : List ManagerEvent), 1 ≤ cfg.historyLimit →
      (Manager.new cfg store now unsaved).Fresh evs → ∀ (worker : ℕ) (id : Uuid) (result : JobResult)
        (time : OffsetDateTime) (fault : Option String) (stuck : JobStore.Stuck),
        ((Manager.new cfg store now unsaved).run cfg evs).workers[worker]? =
          some (.finishing id result) →
        KeepsNewest cfg.historyLimit id
          (((Manager.new cfg store now unsaved).run cfg evs).endJob id result time fault)
          (((Manager.new cfg store now unsaved).run cfg evs).finish cfg worker time fault stuck) := by
  intro h
  have hsample := (h smallConfig ⟨∅, ∅⟩ (onSep25 0) [] secondSample (by decide) secondSample_fresh 0 3
    sampleResult (onSep25 40) none ⟨[], []⟩ secondSample_finishing).newest
  revert hsample
  decide

end AbyssalWarden
