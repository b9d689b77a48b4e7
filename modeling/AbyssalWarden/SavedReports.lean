import AbyssalWarden.Answered

/-! What a client gets that asks for the report of a job. It is saved whole, and read up to a length. -/
namespace AbyssalWarden

open Json

variable {cfg : ServiceConfig} {m : Manager} {id : Uuid} {data : Bytes}

/-! ### The report after its job was executed -/

/-- What happens to the history: the manager goes on, or the service stops and starts again. -/
inductive HistoryEvent where
  | manager (ev : ManagerEvent)
  | restart (now : OffsetDateTime) (unsaved : List Uuid)

def HistoryEvent.drawn : HistoryEvent → List Uuid
  | .manager ev => ev.drawn
  | .restart _ _ => []

def Manager.next (cfg : ServiceConfig) (m : Manager) : HistoryEvent → Manager
  | .manager ev => m.step cfg ev
  | .restart now unsaved => Manager.new cfg m.store now unsaved

def Manager.history (cfg : ServiceConfig) (m : Manager) (evs : List HistoryEvent) : Manager :=
  evs.foldl (Manager.next cfg) m

/-- The job is not executed again, and the report is the one that was saved unless it is gone. -/
structure Manager.Sealed (id : Uuid) (data : Bytes) (m : Manager) : Prop where
  queue : id ∉ m.queue
  worker : ∀ (worker : ℕ) (spec : JobSpec), m.workers[worker]? ≠ some (.executing id spec)
  report : ∀ bytes, m.store.reports[id]? = some bytes → bytes = data

theorem trySaveJob_reports (store : JobStore) (j : JobSummary) (fault : Option String) :
    (store.trySaveJob j fault).reports = store.reports := by
  cases fault <;> rfl

theorem updateJob_reports (m : Manager) (id : Uuid) (f : JobSummary → JobSummary) (fault : Option String) :
    (m.updateJob id f fault).store.reports = m.store.reports := by
  unfold Manager.updateJob
  split
  · rfl
  · exact trySaveJob_reports ..

/-- Removing jobs leaves no other report behind. -/
theorem removeJobs_report {stuck : JobStore.Stuck} {jobs : List JobSummary} {acc : List Uuid × JobStore}
    {bytes : Bytes} (h : (jobs.foldl (JobStore.removeJob stuck) acc).2.reports[id]? = some bytes) :
    acc.2.reports[id]? = some bytes := by
  induction jobs generalizing acc with
  | nil => exact h
  | cons j jobs ih =>
    have hstep := ih h
    have hreports : (JobStore.removeJob stuck acc j).2.reports =
        if stuck.reports.contains j.id then acc.2.reports else acc.2.reports.erase j.id := by
      unfold JobStore.removeJob
      dsimp only
      split <;> rfl
    rw [hreports] at hstep
    split at hstep
    · exact hstep
    · rw [getElem?_erase_ite] at hstep
      split at hstep
      · cases hstep
      · exact hstep

/-- A job that is taken was in the queue, and the queue after it is part of it. -/
theorem popJob_sublist {specs : Std.TreeMap Uuid JobSpec} {queue rest : List Uuid}
    {found : Option (Uuid × JobSpec)} (h : Manager.popJob specs queue = (found, rest)) :
    (∀ id spec, found = some (id, spec) → id ∈ queue) ∧ ∀ id ∈ rest, id ∈ queue := by
  induction queue with
  | nil =>
    cases h
    refine ⟨fun id spec heq => ?_, fun id hid => hid⟩
    cases heq
  | cons first queue ih =>
    rw [Manager.popJob] at h
    split at h
    · cases h
      refine ⟨fun id spec heq => ?_, fun id hid => List.mem_cons_of_mem _ hid⟩
      cases heq
      exact List.mem_cons_self
    · obtain ⟨hfound, hrest⟩ := ih h
      exact ⟨fun id spec heq => List.mem_cons_of_mem _ (hfound id spec heq),
        fun id hid => List.mem_cons_of_mem _ (hrest id hid)⟩

/-- Sealed is what has the same workers and reports, and nothing new in its queue. -/
theorem Manager.Sealed.of_eq {m' : Manager} (h : m.Sealed id data) (hqueue : ∀ id ∈ m'.queue, id ∈ m.queue)
    (hworkers : m'.workers = m.workers) (hreports : m'.store.reports = m.store.reports) : m'.Sealed id data := by
  refine ⟨fun hmem => h.queue (hqueue id hmem), fun worker spec => ?_, fun bytes hbytes => ?_⟩
  · rw [hworkers]
    exact h.worker worker spec
  · rw [hreports] at hbytes
    exact h.report bytes hbytes

theorem Manager.Sealed.setWorker (h : m.Sealed id data) (worker : ℕ) (w : Worker)
    (hw : ∀ spec, w ≠ .executing id spec) : (m.setWorker worker w).Sealed id data := by
  refine ⟨h.queue, fun worker' spec => ?_, h.report⟩
  rw [Manager.setWorker, List.getElem?_set]
  split
  · split
    · intro heq
      exact hw spec (Option.some.inj heq)
    · exact nofun
  · exact h.worker worker' spec

theorem Manager.Sealed.updateJob (h : m.Sealed id data) (id' : Uuid) (f : JobSummary → JobSummary)
    (fault : Option String) : (m.updateJob id' f fault).Sealed id data := by
  obtain ⟨jobs, store, heq, -⟩ := updateJob_eq m id' f fault
  have hreports := updateJob_reports m id' f fault
  rw [heq] at hreports ⊢
  exact h.of_eq (fun _ hmem => hmem) rfl hreports

theorem Manager.Sealed.submit (h : m.Sealed id data) {owner : String} {schedule : Option String}
    {spec : JobSpec} {id' : Uuid} {now : OffsetDateTime} {fault : Option String} (hne : id ≠ id') :
    (m.submit cfg owner schedule spec id' now fault).2.Sealed id data := by
  unfold Manager.submit
  split
  · exact h
  · split
    · exact h
    · cases fault with
      | some e => exact h
      | none =>
        refine ⟨fun hmem => ?_, h.worker, h.report⟩
        cases List.mem_append.mp hmem with
        | inl hqueue => exact h.queue hqueue
        | inr hnew => exact hne (List.mem_singleton.mp hnew)

theorem Manager.Sealed.cancel (h : m.Sealed id data) {id' : Uuid} {now : OffsetDateTime}
    {fault : Option String} : (m.cancel id' now fault).2.Sealed id data := by
  unfold Manager.cancel
  split
  · exact h.of_eq (fun _ hmem => hmem) rfl rfl
  · split
    · have hqueue : ({ m with queue := m.queue.erase id', specs := m.specs.erase id' } : Manager).Sealed id data :=
        h.of_eq (fun _ hmem => List.mem_of_mem_erase hmem) rfl rfl
      exact hqueue.updateJob ..
    · exact h

theorem Manager.Sealed.take (h : m.Sealed id data) {worker : ℕ} {now : OffsetDateTime}
    {fault : Option String} : (m.take worker now fault).Sealed id data := by
  unfold Manager.take
  split
  · split
    · exact h.setWorker _ _ fun _ => nofun
    · cases hpop : Manager.popJob m.specs m.queue with
      | mk found queue =>
        obtain ⟨hfound, hrest⟩ := popJob_sublist hpop
        cases found with
        | none => exact h.of_eq hrest rfl rfl
        | some job =>
          obtain ⟨taken, spec⟩ := job
          have hqueue : ({ m with
              queue := queue
              specs := m.specs.erase taken
              cancels := m.cancels.insert taken false } : Manager).Sealed id data := h.of_eq hrest rfl rfl
          refine (hqueue.updateJob ..).setWorker _ _ fun spec' heq => ?_
          obtain ⟨rfl, -⟩ := Worker.executing.inj heq
          exact h.queue (hfound taken spec rfl)
  · exact h

/-- The execution of another job saves another report. -/
theorem Manager.Sealed.execute (h : m.Sealed id data) {worker : ℕ} {x : Execution} :
    (m.execute cfg worker x).Sealed id data := by
  unfold Manager.execute
  split
  · rename_i id' spec hworker
    have hne : id ≠ id' := by
      intro heq
      exact h.worker worker spec (heq ▸ hworker)
    cases hresult : x.result cfg spec.kind with
    | mk result report =>
      cases report with
      | none => exact h.setWorker worker (.finishing id' result) fun _ heq => by cases heq
      | some bytes' =>
        have hsaved : ({ m with store := m.store.saveReport id' bytes' } : Manager).Sealed id data := by
          refine ⟨h.queue, h.worker, fun bytes hbytes => h.report bytes ?_⟩
          simpa only [JobStore.saveReport, getElem?_insert_ite, if_neg hne] using hbytes
        exact hsaved.setWorker worker (.finishing id' result) fun _ heq => by cases heq
  · exact h

theorem Manager.Sealed.finish (h : m.Sealed id data) {worker : ℕ} {now : OffsetDateTime}
    {fault : Option String} {stuck : JobStore.Stuck} :
    (m.finish cfg worker now fault stuck).Sealed id data := by
  unfold Manager.finish
  split
  · rename_i id' result hworker
    have herased : ({ m with cancels := m.cancels.erase id' } : Manager).Sealed id data :=
      h.of_eq (fun _ hmem => hmem) rfl rfl
    have hended : (m.endJob id' result now fault).Sealed id data := herased.updateJob ..
    have hpruned : ((m.endJob id' result now fault).prune cfg stuck).Sealed id data :=
      ⟨hended.queue, hended.worker, fun bytes hbytes => hended.report bytes (removeJobs_report hbytes)⟩
    exact hpruned.setWorker _ _ fun _ heq => by cases heq
  · exact h

theorem loadJobs_reports {now : OffsetDateTime} {unsaved : List Uuid} {jobs : List JobSummary}
    {acc : Std.TreeMap Uuid JobSummary × JobStore} :
    (jobs.foldl (Manager.loadJob now unsaved) acc).2.reports = acc.2.reports := by
  induction jobs generalizing acc with
  | nil => rfl
  | cons j jobs ih =>
    rw [List.foldl_cons, ih]
    unfold Manager.loadJob
    dsimp only
    split
    · rfl
    · exact trySaveJob_reports ..

/-- What happens to other jobs leaves the report alone. -/
theorem Manager.Sealed.next (h : m.Sealed id data) {ev : HistoryEvent} (hid : id ∉ ev.drawn) :
    (m.next cfg ev).Sealed id data := by
  cases ev with
  | restart now unsaved =>
    refine ⟨List.not_mem_nil, fun worker spec heq => ?_, fun bytes hbytes => h.report bytes ?_⟩
    · change (List.replicate cfg.maxConcurrentJobs Worker.waiting)[worker]? = _ at heq
      rw [List.getElem?_replicate] at heq
      split at heq <;> cases heq
    · have hreports : (Manager.new cfg m.store now unsaved).store.reports = m.store.reports := loadJobs_reports
      rw [← hreports]
      exact hbytes
  | manager ev =>
    cases ev with
    | submit owner schedule spec id' now fault => exact h.submit fun heq => hid (heq ▸ List.mem_singleton_self _)
    | cancel id' now fault => exact h.cancel
    | shutdown => exact ⟨h.queue, h.worker, h.report⟩
    | take worker now fault => exact h.take
    | execute worker x => exact h.execute
    | finish worker now fault stuck => exact h.finish

theorem Manager.Sealed.history {evs : List HistoryEvent} (h : m.Sealed id data)
    (hid : ∀ ev ∈ evs, id ∉ ev.drawn) : (m.history cfg evs).Sealed id data := by
  induction evs generalizing m with
  | nil => exact h
  | cons ev evs ih =>
    exact ih (h.next (hid ev List.mem_cons_self)) fun ev' hev' => hid ev' (List.mem_cons_of_mem _ hev')

/-- A job that completed without a note has a report, and it was saved. -/
theorem Execution.result_saved {x : Execution} {kind : JobKind} {report : ChildReport}
    (hcompleted : (x.result cfg kind).1.state = .completed) (hnote : (x.result cfg kind).1.error = none)
    (hreport : x.report = .ok report) : (x.result cfg kind).2 = some report.bytes := by
  unfold Execution.result at *
  split at hcompleted
  · cases hcompleted
  · split at hcompleted
    · cases hcompleted
    · split at hcompleted
      · cases hcompleted
      · split at hcompleted
        · cases hcompleted
        · simp_all

/-- Right after its execution a job is sealed. -/
theorem execute_sealed {worker : ℕ} {spec : JobSpec} {x : Execution} (h : m.Invariant cfg)
    (hworker : m.workers[worker]? = some (.executing id spec))
    (hsaved : (x.result cfg spec.kind).2 = some data) : (m.execute cfg worker x).Sealed id data := by
  have hjob : m.jobOf worker = some id := by rw [Manager.jobOf, hworker]; rfl
  have hplaced := h.placed id
  have hrunning := hplaced.workers.mpr ⟨worker, hjob⟩
  rw [Manager.execute, hworker]
  simp only [hsaved]
  -- the job is running on this worker, so it is not queued and on no other
  refine ⟨fun hqueue => ?_, fun worker' spec' => ?_, fun bytes hbytes => ?_⟩
  · rw [hplaced.queue.mp hqueue] at hrunning
    cases hrunning
  · rw [Manager.setWorker, List.getElem?_set]
    split
    · split
      · intro h
        cases h
      · intro h
        cases h
    · rename_i hne
      intro hother
      have hjob' : m.jobOf worker' = some id := by
        rw [Manager.jobOf, hother]
        rfl
      exact hne (hplaced.alone worker worker' hjob hjob')
  · have hinsert : (m.store.saveReport id data).reports[id]? = some data := by
      rw [JobStore.saveReport, getElem?_insert_ite, if_pos rfl]
    exact Option.some.inj (hbytes.symm.trans hinsert)

/-! ### What is read back -/

section Request

variable {lib : Serde} {n : ℕ} {peer : Option Peer} {turns : List Turn} {turn : Turn} {req : Request} {p : Peer}

/-- The request is answered with the value of the report. -/
def ReportReturned (lib : Serde) (req : Request) (id : Uuid) (data : Bytes) (after : List WireEvent) : Prop :=
  ∃ v frame rest, lib.fromSlice data = .ok v ∧
    after = .sent (Response.new req.id (.report id v)) frame :: rest

/-- The report is there and its file can be read. What lies beyond the length that is read does not change what
it parses as, and the value fits into a frame that the client takes. -/
structure Readable (lib : Serde) (turn : Turn) (req : Request) (id : Uuid) (data : Bytes) : Prop where
  kept : id ∈ turn.ctx.service.manager.store.reports
  file : turn.world.reportUnread = none
  value : ∃ v, lib.fromSlice data = .ok v ∧ lib.fromSlice (data.take maxReportRead) = .ok v ∧
    62 + idSize req.id + strSize id.text + size v ≤ maxResponse
  taken : turn.fault = none

/-- An answer is sent just when it fits and the client takes it. -/
theorem answer_sent_iff {result : Executed} {ctx' : Ctx} {reply : Reply}
    (hdispatch : turn.ctx.dispatch lib p turn.world req = (result.map (Ctx.respond req.id), ctx')) :
    (∃ frame rest, answer lib n turn req turns (some p) = .sent (Response.new req.id reply) frame :: rest) ↔
      result.map replyOf = some reply ∧ ReplyFits req.id reply ∧ turn.fault = none := by
  rw [answer, hdispatch, ← writeFrame_ok_iff]
  cases result with
  | none => simp
  | some result =>
    simp only [Option.map_some, Option.some.injEq, respond_eq]
    constructor
    · intro h
      obtain ⟨frame, rest, heq⟩ := h
      -- a reply that does not fit is not sent
      cases hframe : writeFrame (Response.new req.id (replyOf result)) maxResponse turn.fault with
      | error e =>
        rw [hframe] at heq
        cases heq
      | ok frame' =>
        rw [hframe] at heq
        obtain ⟨hsent, -⟩ := List.cons.inj heq
        injection hsent with hresponse hsame
        injection hresponse with _ _ hreply
        subst hreply
        exact ⟨rfl, frame', hframe⟩
    · intro h
      obtain ⟨rfl, frame, hframe⟩ := h
      rw [hframe]
      exact ⟨frame, _, rfl⟩

/-- What a request for the report of its own job comes to. -/
theorem report_returned_iff {j : JobSummary} (hop : req.op = .report id) (hversion : req.version = protocolVersion)
    (hj : turn.ctx.service.manager.jobs[id]? = some j) (howner : p.caller.principal = j.owner)
    (hsealed : turn.ctx.service.manager.Sealed id data) :
    ReportReturned lib req id data (answer lib n turn req turns (some p)) ↔ Readable lib turn req id data := by
  -- the request is valid, authorised and about a job that the caller may see
  have hvalid : req.validate lib.debug = .ok () := by
    rw [Request.validate, hversion, hop]
    rfl
  have hauth : authorize p.caller req.op = .ok () := by
    rw [hop]
    rfl
  have hsee : canAccessJob p.caller j.owner = true := by
    rw [canAccessJob, howner]
    simp
  -- it is answered with the report where the report is found and the answer fits
  have hsent (v : Json) : (∃ frame rest, answer lib n turn req turns (some p) =
      .sent (Response.new req.id (.report id v)) frame :: rest) ↔
        turn.ctx.service.manager.report lib id turn.world.reportUnread = .ok (some v) ∧
          62 + idSize req.id + strSize id.text + size v ≤ maxResponse ∧ turn.fault = none := by
    rw [answer_sent_iff (dispatch_eq hvalid hauth), reportFits_iff, hop, Ctx.execute, hj]
    simp only [hsee, if_true]
    cases turn.ctx.service.manager.report lib id turn.world.reportUnread with
    | error e => simp [replyOf]
    | ok found => cases found <;> simp [replyOf]
  -- it is found where it is stored and the part that is read parses
  have hreport (v : Json) : turn.ctx.service.manager.report lib id turn.world.reportUnread = .ok (some v) ↔
      id ∈ turn.ctx.service.manager.store.reports ∧ turn.world.reportUnread = none ∧
        lib.fromSlice (data.take maxReportRead) = .ok v := by
    rw [Manager.report]
    cases hstored : turn.ctx.service.manager.store.reports[id]? with
    | none =>
      have hgone : id ∉ turn.ctx.service.manager.store.reports := by
        rw [Std.TreeMap.mem_iff_isSome_getElem?, hstored]
        exact Bool.false_ne_true
      simp [hgone]
    | some bytes =>
      have hthere : id ∈ turn.ctx.service.manager.store.reports := by
        rw [Std.TreeMap.mem_iff_isSome_getElem?, hstored]
        rfl
      obtain rfl := hsealed.report bytes hstored
      cases turn.world.reportUnread <;> simp [hthere]
  constructor
  · intro h
    obtain ⟨v, frame, rest, hparsed, hafter⟩ := h
    obtain ⟨hread, hfits, htaken⟩ := (hsent v).mp ⟨frame, rest, hafter⟩
    obtain ⟨hkept, hfile, hprefix⟩ := (hreport v).mp hread
    exact ⟨hkept, hfile, ⟨v, hparsed, hprefix, hfits⟩, htaken⟩
  · intro h
    obtain ⟨v, hparsed, hprefix, hfits⟩ := h.value
    obtain ⟨frame, rest, hafter⟩ :=
      (hsent v).mpr ⟨(hreport v).mpr ⟨h.kept, h.file, hprefix⟩, hfits, h.taken⟩
    exact ⟨v, frame, rest, hparsed, hafter⟩

/-- The report of a job that completed without a note is returned to its owner, whatever happened to other jobs
since, just when it can be read back. -/
theorem saved_report_returned_iff (cfg : ServiceConfig) (store : JobStore) (started : OffsetDateTime)
    (unsaved : List Uuid) (evs : List ManagerEvent) (hfresh : (Manager.new cfg store started unsaved).Fresh evs)
    (worker : ℕ) (id : Uuid) (spec : JobSpec) (x : Execution) (report : ChildReport)
    (hworker : ((Manager.new cfg store started unsaved).run cfg evs).workers[worker]? = some (.executing id spec))
    (hcompleted : (x.result cfg spec.kind).1.state = .completed)
    (hnote : (x.result cfg spec.kind).1.error = none) (hreport : x.report = .ok report)
    (later : List HistoryEvent) (hdrawn : ∀ ev ∈ later, id ∉ ev.drawn) {before after : List WireEvent}
    (hreceived : converse lib n peer turns = before ++ .received turn req (some p) :: after)
    (hstate : turn.ctx.service.manager =
      (((Manager.new cfg store started unsaved).run cfg evs).execute cfg worker x).history cfg later)
    (hop : req.op = .report id) (hversion : req.version = protocolVersion) {j : JobSummary}
    (hj : turn.ctx.service.manager.jobs[id]? = some j) (howner : p.caller.principal = j.owner) :
    ReportReturned lib req id report.bytes after ↔ Readable lib turn req id report.bytes := by
  have hinv := run_consistent (new_invariant cfg store started unsaved) hfresh
  have hsealed := execute_sealed hinv hworker (Execution.result_saved hcompleted hnote hreport)
  obtain ⟨n', turns', rfl⟩ := received_answer hreceived
  exact report_returned_iff hop hversion hj howner (hstate ▸ hsealed.history hdrawn)

end Request

/-! ### Samples -/

/-- The bytes of a string in JSON that needs no escapes. -/
def isPlainByte (b : UInt8) : Bool := 0x20 ≤ b && b < 0x7F && b ≠ quote && b ≠ 0x5C

/-- Reads a string that needs no escapes. -/
def plainSerde : Serde where
  debug s := "\"" ++ s ++ "\""
  fromSlice
    | [] => .error "EOF while parsing a value"
    | first :: rest =>
      if first = quote && rest.getLast? = some quote && rest.dropLast.all isPlainByte then
        .ok (.str (String.ofList (rest.dropLast.map fun b => Char.ofNat b.toNat)))
      else .error "EOF while parsing a string"

/-- A job is submitted and taken. -/
def takenSample : List ManagerEvent := [.submit "0" none sampleSpec 3 (onSep25 10) none, .take 0 (onSep25 10) none]

theorem takenSample_fresh : freshService.Fresh takenSample := ⟨by decide, fun _ _ => rfl⟩

def printed (data : Bytes) : Execution := { sampleExecution with report := .ok ⟨data, none, none⟩ }

/-- The child prints this report, and the job has ended. -/
def reportedManager (data : Bytes) : Manager :=
  ((freshService.run smallConfig takenSample).execute smallConfig 0 (printed data)).history smallConfig
    [.manager (finishSample 20)]

theorem finishSample_drawn (second : Fin 86400) (id : Uuid) :
    ∀ ev ∈ [HistoryEvent.manager (finishSample second)], id ∉ ev.drawn := by
  intro ev hev
  rw [List.mem_singleton.mp hev]
  exact List.not_mem_nil

theorem reportedManager_sealed (data : Bytes) : (reportedManager data).Sealed 3 data := by
  have hinv : (freshService.run smallConfig takenSample).Invariant smallConfig :=
    run_consistent (new_invariant ..) takenSample_fresh
  have hworker : (freshService.run smallConfig takenSample).workers[0]? = some (.executing 3 sampleSpec) := rfl
  have hsaved : ((printed data).result smallConfig sampleSpec.kind).2 = some data := rfl
  have hsealed := execute_sealed hinv hworker hsaved
  exact hsealed.history (finishSample_drawn 20 3)

/-- Its owner asks for it. -/
def reportTurn (data : Bytes) : Turn :=
  rootTurn (serving smallConfig { hourlyService with manager := reportedManager data }) (.report 3)

theorem reported_round (data : Bytes) : converse plainSerde 1 none [reportTurn data] =
    [] ++ .received (reportTurn data) ⟨protocolVersion, 7, .report 3⟩ (some rootPeer) ::
      answer plainSerde 0 (reportTurn data) ⟨protocolVersion, 7, .report 3⟩ [] (some rootPeer) := converse_ok rfl

theorem saved_report_returned_sample : ∃ after, converse plainSerde 1 none [reportTurn [0x22, 0x6F, 0x6B, 0x22]] =
      .received (reportTurn [0x22, 0x6F, 0x6B, 0x22]) ⟨protocolVersion, 7, .report 3⟩ (some rootPeer) :: after ∧
    ReportReturned plainSerde ⟨protocolVersion, 7, .report 3⟩ 3 [0x22, 0x6F, 0x6B, 0x22] after := by
  have hreadable : Readable plainSerde (reportTurn [0x22, 0x6F, 0x6B, 0x22]) ⟨protocolVersion, 7, .report 3⟩ 3
      [0x22, 0x6F, 0x6B, 0x22] :=
    ⟨by decide, rfl, ⟨.str "ok", rfl, rfl, by decide⟩, rfl⟩
  refine ⟨_, reported_round _, ?_⟩
  exact (saved_report_returned_iff smallConfig ⟨∅, ∅⟩ (onSep25 0) [] takenSample takenSample_fresh 0 3 sampleSpec
    (printed [0x22, 0x6F, 0x6B, 0x22]) ⟨[0x22, 0x6F, 0x6B, 0x22], none, none⟩ rfl rfl rfl rfl
    [.manager (finishSample 20)] (finishSample_drawn 20 3) (reported_round _) rfl rfl rfl rfl rfl).mpr hreadable

/-- A string of `n` letters. -/
def longString (n : ℕ) : Bytes := quote :: (List.replicate n 0x61 ++ [quote])

theorem longString_parses (n : ℕ) : ∃ v, plainSerde.fromSlice (longString n) = .ok v := by
  have hlast : (List.replicate n (0x61 : UInt8) ++ [quote]).getLast? = some quote := List.getLast?_concat
  have hchars : (List.replicate n (0x61 : UInt8) ++ [quote]).dropLast = List.replicate n 0x61 :=
    List.dropLast_concat
  have hplain : (List.replicate n (0x61 : UInt8)).all isPlainByte = true := by
    rw [List.all_eq_true]
    intro b hb
    rw [List.eq_of_mem_replicate hb]
    decide
  refine ⟨.str (String.ofList ((List.replicate n (0x61 : UInt8)).map fun b => Char.ofNat b.toNat)), ?_⟩
  simp only [plainSerde, longString, hlast, hchars, hplain]
  rfl

/-- Without the closing quote it is no string. -/
theorem longString_cut (n k : ℕ) (hk : k ≤ n) (v : Json) :
    plainSerde.fromSlice ((longString n).take (k + 1)) ≠ .ok v := by
  have htake : (longString n).take (k + 1) = quote :: List.replicate k 0x61 := by
    have hlen : k ≤ (List.replicate n (0x61 : UInt8)).length := by
      rw [List.length_replicate]
      exact hk
    rw [longString, List.take_succ_cons, List.take_append_of_le_length hlen, List.take_replicate,
      Nat.min_eq_left hk]
  have hlast : (List.replicate k (0x61 : UInt8)).getLast? ≠ some quote := by
    intro heq
    have hmem := List.mem_of_getLast? heq
    cases List.eq_of_mem_replicate hmem
  rw [htake]
  simp [plainSerde, hlast]

/-- A report of 33554434 bytes is saved, and its owner does not get it. -/
theorem long_report_not_returned :
    smallConfig.validate = .ok () ∧ (longString maxReportRead).length ≤ 256 * 2 ^ 20 ∧
    (reportedManager (longString maxReportRead)).stateOf 3 = some .completed ∧
    ((reportedManager (longString maxReportRead)).jobs[(3 : Uuid)]?.bind JobSummary.error) = none ∧
    (∃ v, plainSerde.fromSlice (longString maxReportRead) = .ok v) ∧
    ∃ after, converse plainSerde 1 none [reportTurn (longString maxReportRead)] =
        .received (reportTurn (longString maxReportRead)) ⟨protocolVersion, 7, .report 3⟩ (some rootPeer) :: after ∧
      ¬ ReportReturned plainSerde ⟨protocolVersion, 7, .report 3⟩ 3 (longString maxReportRead) after := by
  have hlength : (longString maxReportRead).length = maxReportRead + 2 := by
    rw [longString, List.length_cons, List.length_append, List.length_replicate]
    rfl
  have hmax : maxReportRead = 33554431 + 1 := rfl
  refine ⟨rfl, by omega, rfl, rfl, longString_parses _, _, reported_round _, fun hreturned => ?_⟩
  have hreadable := (report_returned_iff rfl rfl rfl rfl (reportedManager_sealed _)).mp hreturned
  obtain ⟨v, -, hprefix, -⟩ := hreadable.value
  exact longString_cut _ 33554431 (by omega) v hprefix

end AbyssalWarden
