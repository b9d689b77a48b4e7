import AbyssalWarden.LifecycleRecovery
import AbyssalWarden.SavedRecords

/-! Whole runs of the store, whatever it is stopped in. -/
namespace AbyssalWarden

namespace Host

variable (host : Host)

/-- The calls that an event makes of the kernel. -/
def eventSteps (s : StoreState) : StoreEvent → List (Step storeSystem)
  | .reopen now faults => (host.openStore now).trace never faults s.disk
  | .call op faults =>
    match s.store with
    | none => []
    | some store => (host.callOp store op).trace never faults s.disk

/-- The process is stopped in the middle of the event. -/
def StoppedIn (s : StoreState) : StoreEvent → Prop
  | .reopen now faults => ((host.openStore now).run never faults s.disk).1 = .stopped
  | .call op faults => ∃ store, s.store = some store ∧ ((host.callOp store op).run never faults s.disk).1 = .stopped

def runSteps : StoreState → List StoreEvent → List (Step storeSystem)
  | _, [] => []
  | s, ev :: evs => host.eventSteps s ev ++ runSteps (host.step never s ev) evs

/-- What the steps of a run come to. -/
def noted (s : StoreState) (evs : List StoreEvent) : Progress := (host.runSteps s evs).foldl host.note .start

/-- The items whose stored file was removed for a restore or a delete that was not recorded since. -/
def halfDone (s : StoreState) (evs : List StoreEvent) : List QuarantineId :=
  (host.runSteps s evs).foldl host.noteHalfDone []

/-- The items that were given a final state that was not announced since. -/
def unaudited (s : StoreState) (evs : List StoreEvent) : List QuarantineId :=
  (host.runSteps s evs).foldl host.noteUnaudited []

end Host

variable {host : Host} {ids : List QuarantineId} {g g' : Progress} {s : StoreState} {w : Disk} {id : QuarantineId}
  {evs : List StoreEvent} {ev : StoreEvent} {store : QuarantineStore}

/-! ### One event -/

/-- What holds between events: all items are in order, and while the store is open nothing is pending. -/
structure Host.Resting (host : Host) (ids : List QuarantineId) (g : Progress) (s : StoreState) : Prop where
  ordered : host.Ordered ids g s.disk
  working : s.store ≠ none → host.Working ids [] g s.disk

theorem callOp_runs (store : QuarantineStore) {op : StoreOp} (faults : List (Fault Errno)) (h : host.Working ids [] g w)
    (hfresh : ∀ id ∈ StoreEvent.drawn (.call op faults), id ∉ ids) :
    (host.callOp store op).MeetsWith never host.note (host.Ordered (StoreEvent.drawn (.call op faults) ++ ids))
      (fun _ _ _ => False) (fun _ => host.Settled (StoreEvent.drawn (.call op faults) ++ ids) [] g) g w := by
  cases op with
  | quarantine req d =>
    have hrun : (host.quarantine store req d).MeetsWith never host.note (host.Ordered (d.id :: ids))
        (fun _ _ _ => False) (fun _ => host.Settled (d.id :: ids) [] g) g w :=
      quarantine_runs h (hfresh d.id (List.mem_singleton_self _))
    exact Prog.meetsWith_bind.mpr (hrun.mono (fun _ _ h => h) (fun _ _ _ h => h) fun _ _ _ h => h)
  | restore id destDir d =>
    have hrun : (host.restore store id destDir d).MeetsWith never host.note (host.Ordered ids) (fun _ _ _ => False)
        (fun _ => host.Settled ids [] g) g w := by
      refine audited_runs ((restoreInner_runs h).mono (fun _ _ h => h) (fun _ _ _ h => h) ?_)
      rintro _ g' w' ⟨record, hfinished, hid, hstate⟩
      exact ⟨record, hfinished, hid, .inl ⟨hstate, rfl⟩⟩
    exact Prog.meetsWith_bind.mpr (hrun.mono (fun _ _ h => h) (fun _ _ _ h => h) fun _ _ _ h => h)
  | delete id d =>
    have hrun : (host.delete store id d).MeetsWith never host.note (host.Ordered ids) (fun _ _ _ => False)
        (fun _ => host.Settled ids [] g) g w := by
      refine audited_runs ((deleteInner_runs h).mono (fun _ _ h => h) (fun _ _ _ h => h) ?_)
      rintro _ g' w' ⟨record, hfinished, hid, hstate⟩
      exact ⟨record, hfinished, hid, .inr ⟨hstate, rfl⟩⟩
    exact Prog.meetsWith_bind.mpr (hrun.mono (fun _ _ h => h) (fun _ _ _ h => h) fun _ _ _ h => h)

/-- An event keeps the items in order. Only if it is stopped can it leave something half done or unaudited. -/
theorem step_resting (h : host.Resting ids g s) (hfresh : ∀ id ∈ ev.drawn, id ∉ ids) :
    host.Resting (ev.drawn ++ ids) ((host.eventSteps s ev).foldl host.note g) (host.step never s ev) ∧
      (¬ host.StoppedIn s ev → host.Within g ((host.eventSteps s ev).foldl host.note g)) := by
  cases ev with
  | reopen now faults =>
    have hruns : (host.openStore now).MeetsWith never host.note (host.Ordered ids)
        (fun _ g' w' => host.Ordered ids g' w' ∧ host.Within g g') (fun _ => host.Settled ids [] g) g s.disk :=
      openStore_runs h.ordered
    have hends := Prog.run_trace_ends hruns faults
    change host.Resting ids (((host.openStore now).trace never faults s.disk).foldl host.note g) _ ∧
      (¬ ((host.openStore now).run never faults s.disk).1 = .stopped →
        host.Within g (((host.openStore now).trace never faults s.disk).foldl host.note g))
    rw [Host.step]
    generalize (host.openStore now).run never faults s.disk = result at hends ⊢
    obtain ⟨outcome, disk⟩ := result
    -- the store is open, or opening it failed, or it was stopped
    cases outcome with
    | ok store => exact ⟨⟨hends.working.toOrdered, fun _ => hends.working⟩, fun _ => hends.within⟩
    | error e => exact ⟨⟨hends.1, fun h => absurd rfl h⟩, fun _ => hends.2⟩
    | stopped => exact ⟨⟨hends, fun h => absurd rfl h⟩, fun h => absurd rfl h⟩
  | call op faults =>
    cases hstore : s.store with
    | none =>
      have hsteps : host.eventSteps s (.call op faults) = [] := by simp only [Host.eventSteps, hstore]
      have hstep : host.step never s (.call op faults) = s := by simp only [Host.step, hstore]
      rw [hsteps, hstep]
      -- no store is open, so the call does nothing
      refine ⟨⟨⟨fun id hid => List.mem_append_right _ (h.ordered.drawn id hid), h.ordered.writable, h.ordered.data,
        h.ordered.half, h.ordered.log, h.ordered.lawful⟩, fun hne => absurd hstore hne⟩, fun _ => .refl g⟩
    | some store =>
      have hworking := h.working (by simp [hstore])
      have hends := Prog.run_trace_ends (callOp_runs store faults hworking hfresh) faults
      have hsteps : host.eventSteps s (.call op faults) = (host.callOp store op).trace never faults s.disk := by
        simp only [Host.eventSteps, hstore]
      have hstopped : host.StoppedIn s (.call op faults) ↔
          ((host.callOp store op).run never faults s.disk).1 = .stopped := by
        simp [Host.StoppedIn, hstore]
      rw [hsteps, hstopped]
      simp only [Host.step, hstore]
      generalize (host.callOp store op).run never faults s.disk = result at hends ⊢
      obtain ⟨outcome, disk⟩ := result
      cases outcome with
      | ok store => exact ⟨⟨hends.working.toOrdered, fun _ => hends.working⟩, fun _ => hends.within⟩
      | error e => exact e.elim
      | stopped => exact ⟨⟨hends, fun h => absurd rfl h⟩, fun h => absurd rfl h⟩

/-! ### Runs -/

theorem runSteps_concat (host : Host) (s : StoreState) (evs : List StoreEvent) (ev : StoreEvent) :
    host.runSteps s (evs ++ [ev]) = host.runSteps s evs ++ host.eventSteps (host.runEvents never s evs) ev := by
  induction evs generalizing s with
  | nil => exact List.append_nil _
  | cons first evs ih =>
    rw [List.cons_append, Host.runSteps, Host.runSteps, ih, List.append_assoc]
    rfl

theorem runEvents_concat (host : Host) (s : StoreState) (evs : List StoreEvent) (ev : StoreEvent) :
    host.runEvents never s (evs ++ [ev]) = host.step never (host.runEvents never s evs) ev := by
  rw [Host.runEvents, List.foldl_append]
  rfl

theorem noted_concat (host : Host) (s : StoreState) (evs : List StoreEvent) (ev : StoreEvent) :
    host.noted s (evs ++ [ev]) =
      (host.eventSteps (host.runEvents never s evs) ev).foldl host.note (host.noted s evs) := by
  rw [Host.noted, runSteps_concat, List.foldl_append, Host.noted]

theorem foldl_note (host : Host) (steps : List (Step storeSystem)) (g : Progress) :
    (steps.foldl host.note g).halfDone = steps.foldl host.noteHalfDone g.halfDone ∧
      (steps.foldl host.note g).unaudited = steps.foldl host.noteUnaudited g.unaudited ∧
      ((steps.foldl host.note g).lawful ↔ g.lawful ∧
        ∀ st ∈ steps, ∀ id, Lifecycle (host.stateAt st.before id) (host.stateAt st.after id)) := by
  induction steps generalizing g with
  | nil => simp
  | cons st steps ih =>
    obtain ⟨hhalf, hunaudited, hlawful⟩ := ih (host.note g st)
    refine ⟨hhalf, hunaudited, hlawful.trans ?_⟩
    rw [List.forall_mem_cons, ← and_assoc]
    rfl

theorem noted_halfDone : (host.noted s evs).halfDone = host.halfDone s evs := (foldl_note host _ .start).1

theorem noted_unaudited : (host.noted s evs).unaudited = host.unaudited s evs := (foldl_note host _ .start).2.1

theorem fresh_resting (hs : s.Fresh) : host.Resting [] .start s := by
  obtain ⟨hitems, hstore⟩ := hs
  have hlookup (f : ItemFile) : s.disk.items.lookup f = none := by rw [hitems]; rfl
  have hrecord (id : QuarantineId) : host.recordAt s.disk id = none := by
    rw [Host.recordAt, hlookup]
    rfl
  refine ⟨⟨fun id hid => absurd (hlookup _) hid, fun id record h => ?_, fun id _ record h => ?_,
    fun id hid => absurd hid List.not_mem_nil, fun id _ record h => ?_, trivial⟩, fun h => absurd hstore h⟩
  · rw [hrecord] at h
    cases h
  · rw [hrecord] at h
    cases h
  · rw [hrecord] at h
    cases h

/-- In every run from a fresh store the items stay in order. -/
theorem run_resting (host : Host) (hs : s.Fresh) (hdrawn : (evs.flatMap StoreEvent.drawn).Nodup) :
    ∃ ids, (∀ id ∈ ids, id ∈ evs.flatMap StoreEvent.drawn) ∧
      host.Resting ids (host.noted s evs) (host.runEvents never s evs) := by
  induction evs using List.reverseRecOn with
  | nil => exact ⟨[], fun id hid => absurd hid List.not_mem_nil, fresh_resting hs⟩
  | append_singleton evs ev ih =>
    rw [List.flatMap_append, List.flatMap_singleton, List.nodup_append] at hdrawn
    obtain ⟨ids, hids, hresting⟩ := ih hdrawn.1
    have hfresh : ∀ id ∈ ev.drawn, id ∉ ids := fun id hid hmem => hdrawn.2.2 id (hids id hmem) id hid rfl
    refine ⟨ev.drawn ++ ids, fun id hid => ?_, ?_⟩
    · rw [List.flatMap_append, List.flatMap_singleton]
      exact List.mem_append.mpr ((List.mem_append.mp hid).symm.imp_left (hids id))
    · rw [noted_concat, runEvents_concat]
      exact (step_resting hresting hfresh).1

/-- Whatever is half done or unaudited at the end of a run is so since an event that was stopped. -/
theorem since_stopped (part : Progress → List QuarantineId) (hs : s.Fresh) (hstart : part .start = [])
    (hpart : ∀ g g', host.Within g g' → ∀ id ∈ part g', id ∈ part g)
    (hdrawn : (evs.flatMap StoreEvent.drawn).Nodup) (hid : id ∈ part (host.noted s evs)) :
    ∃ before ev after, evs = before ++ ev :: after ∧ host.StoppedIn (host.runEvents never s before) ev ∧
      id ∉ part (host.noted s before) ∧ id ∈ part (host.noted s (before ++ [ev])) := by
  induction evs using List.reverseRecOn with
  | nil =>
    rw [Host.noted, Host.runSteps, List.foldl_nil, hstart] at hid
    cases hid
  | append_singleton evs ev ih =>
    have hdrawn' := hdrawn
    rw [List.flatMap_append, List.flatMap_singleton, List.nodup_append] at hdrawn
    by_cases hbefore : id ∈ part (host.noted s evs)
    · obtain ⟨before, ev', after, rfl, hsplit⟩ := ih hdrawn.1 hbefore
      exact ⟨before, ev', after ++ [ev], by simp, hsplit⟩
    · refine ⟨evs, ev, [], rfl, ?_, hbefore, hid⟩
      by_contra hnot
      obtain ⟨ids, hids, hresting⟩ := run_resting host hs hdrawn.1
      have hfresh : ∀ id ∈ ev.drawn, id ∉ ids := fun id hid hmem => hdrawn.2.2 id (hids id hmem) id hid rfl
      have hwithin := (step_resting hresting hfresh).2 hnot
      rw [← noted_concat] at hwithin
      exact hbefore (hpart _ _ hwithin id hid)

/-- In every run, whatever call the process is stopped in: a record only changes along its life; while the store
is open nothing is pending; and the stored file of an item is as its record says unless a restore or a delete that
removed the file was stopped before it was recorded. -/
theorem items_in_order (host : Host) (s : StoreState) (hs : s.Fresh) (evs : List StoreEvent)
    (hdrawn : (evs.flatMap StoreEvent.drawn).Nodup) :
    (∀ st ∈ host.runSteps s evs, ∀ id, Lifecycle (host.stateAt st.before id) (host.stateAt st.after id)) ∧
      ((host.runEvents never s evs).store ≠ none →
        ∀ id, host.stateAt (host.runEvents never s evs).disk id ≠ some .pending) ∧
      (∀ id, host.DataOk (host.runEvents never s evs).disk id ↔ id ∉ host.halfDone s evs) ∧
      ∀ id ∈ host.halfDone s evs, ∃ before ev after, evs = before ++ ev :: after ∧
        host.StoppedIn (host.runEvents never s before) ev ∧ id ∉ host.halfDone s before ∧
        id ∈ host.halfDone s (before ++ [ev]) := by
  obtain ⟨ids, -, hresting⟩ := run_resting host hs hdrawn
  refine ⟨((foldl_note host _ .start).2.2.mp hresting.ordered.lawful).2, fun hopen id hpending => ?_, fun id => ?_,
    fun id hid => ?_⟩
  · exact absurd ((hresting.working hopen).pending id hpending) List.not_mem_nil
  · rw [← noted_halfDone]
    refine ⟨fun hdata hid => ?_, hresting.ordered.data id⟩
    obtain ⟨hstate, hfile⟩ := hresting.ordered.half id hid
    exact not_dataOk_of_missing hstate hfile hdata
  · simp only [← noted_halfDone] at hid ⊢
    exact since_stopped Progress.halfDone hs rfl (fun _ _ h => h.halfDone) hdrawn hid

/-- The sample is quarantined; then it is to be deleted, and the process is stopped when the copy is removed. -/
def stoppedDelete : List StoreEvent :=
  [.reopen sampleNow [], quarantineSample 0 [], .call (.delete sampleId sampleDraws) [.none, .stops 1]]

theorem items_in_order_sample : ¬ readingHost.DataOk (readingHost.runEvents never sampleState stoppedDelete).disk sampleId ∧
    ∃ before ev after, stoppedDelete = before ++ ev :: after ∧
      readingHost.StoppedIn (readingHost.runEvents never sampleState before) ev ∧
      sampleId ∉ readingHost.halfDone sampleState before ∧
      sampleId ∈ readingHost.halfDone sampleState (before ++ [ev]) := by
  have hhalf : sampleId ∈ readingHost.halfDone sampleState stoppedDelete := by decide +kernel
  obtain ⟨-, -, hdata, hstopped⟩ := items_in_order readingHost sampleState ⟨rfl, rfl⟩ stoppedDelete
    (List.nodup_singleton sampleId)
  exact ⟨fun hok => (hdata sampleId).mp hok hhalf, hstopped sampleId hhalf⟩

/-- In every run in which every event can be logged: the log tells of the final state that an item is in, unless
the call that put it there was stopped before the log did. -/
theorem final_states_logged (host : Host) (hlog : host.CanLog) (s : StoreState) (hs : s.Fresh)
    (evs : List StoreEvent) (hdrawn : (evs.flatMap StoreEvent.drawn).Nodup) (id : QuarantineId)
    (hnot : ¬ host.LogOk (host.runEvents never s evs).disk id) :
    ∃ before ev after, evs = before ++ ev :: after ∧ host.StoppedIn (host.runEvents never s before) ev ∧
      id ∉ host.unaudited s before ∧ id ∈ host.unaudited s (before ++ [ev]) := by
  obtain ⟨ids, -, hresting⟩ := run_resting host hs hdrawn
  have hid : id ∈ (host.noted s evs).unaudited := by
    by_contra hid
    exact hnot (hresting.ordered.log id hid)
  simp only [← noted_unaudited]
  exact since_stopped Progress.unaudited hs rfl (fun _ _ h => h.unaudited hlog) hdrawn hid

/-- The sample is quarantined, and the process is stopped before that is logged. -/
def stoppedAudit : List StoreEvent := [.reopen sampleNow [], quarantineSample 21 [.stops 0]]

theorem final_states_logged_sample : ∃ before ev after, stoppedAudit = before ++ ev :: after ∧
    readingHost.StoppedIn (readingHost.runEvents never sampleState before) ev ∧
    sampleId ∉ readingHost.unaudited sampleState before ∧
    sampleId ∈ readingHost.unaudited sampleState (before ++ [ev]) := by
  have hdisk : (readingHost.runEvents never sampleState stoppedAudit).disk.audit = [] ∧
      readingHost.recordAt (readingHost.runEvents never sampleState stoppedAudit).disk sampleId =
        some (sampleRecord .quarantined) := by decide +kernel
  refine final_states_logged readingHost (fun entry htime => sampleEntries_writes entry htime) sampleState ⟨rfl, rfl⟩
    stoppedAudit (List.nodup_singleton sampleId) sampleId fun hok => ?_
  obtain ⟨entry, ⟨before, line, after, haudit, -⟩, -⟩ := hok _ hdisk.2 (fun h => by cases h)
  rw [hdisk.1] at haudit
  simp at haudit

end AbyssalWarden
