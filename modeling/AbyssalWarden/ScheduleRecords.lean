import AbyssalWarden.ScheduledRuns

/-! Whether a recorded run stays recorded. Every start reads the whole schedule state and writes it back, and
nothing keeps two of them apart. -/
namespace AbyssalWarden

variable {cfg : ServiceConfig} {svc svc' : Service} {sev : ServiceEvent} {evs : List ServiceEvent}
  {name : String} {file : ScheduleState}

namespace Service

/-- What `schedules.json` holds. -/
def recorded (svc : Service) : ScheduleState := svc.schedules.getD ∅

/-- Every started schedule has a last run that is no earlier than its starts, and the other entries are as
they were in `file`. -/
structure Recorded (file : ScheduleState) (calls : List StartCall) (svc : Service) : Prop where
  started : ∀ call ∈ calls, ∃ last, svc.recorded[call.schedule.name]? = some last ∧ call.createdAt ≤ last
  others : ∀ name, (∀ call ∈ calls, call.schedule.name ≠ name) → svc.recorded[name]? = file[name]?

def returnedCalls (svc : Service) : List StartCall :=
  svc.calls.filter fun call => match call.phase with
    | .returned => true
    | _ => false

/-- A start that is about to write: nothing was lost since it read. The entries of other schedules are as it
read them, and it records a time that is no earlier than its own start and the starts of its schedule
that have returned. -/
def Undisturbed (svc : Service) (call : ℕ) (now : OffsetDateTime) : Prop :=
  match svc.calls[call]? with
  | some ⟨s, createdAt, .read state⟩ =>
    (∀ name, name ≠ s.name → svc.recorded[name]? = state[name]?) ∧ createdAt ≤ now ∧
      ∀ other ∈ svc.returnedCalls, other.schedule.name = s.name → other.createdAt ≤ now
  | _ => True

/-- Where the event is a write, it succeeds and nothing was lost before it. -/
def Clean (svc : Service) : ServiceEvent → Prop
  | .save call now fault => fault = none ∧ svc.Undisturbed call now
  | _ => True

/-- Every event of a run is clean when it happens. -/
def CleanRun (cfg : ServiceConfig) : Service → List ServiceEvent → Prop
  | _, [] => True
  | svc, sev :: evs => svc.Clean sev ∧ CleanRun cfg (svc.step cfg sev) evs

end Service

open Service

/-! ### Steps -/

theorem mem_returnedCalls {call : StartCall} :
    call ∈ svc.returnedCalls ↔ call ∈ svc.calls ∧ call.phase = .returned := by
  rw [returnedCalls, List.mem_filter]
  refine and_congr_right fun _ => ?_
  cases call.phase <;> simp

/-- Nothing is written and no start returns. -/
theorem recorded_of_eq (h : Recorded file svc.returnedCalls svc) (hschedules : svc'.schedules = svc.schedules)
    (hcalls : ∀ call, call ∈ svc'.returnedCalls ↔ call ∈ svc.returnedCalls) :
    Recorded file svc'.returnedCalls svc' := by
  have hsame : svc'.recorded = svc.recorded := by rw [recorded, hschedules, recorded]
  refine ⟨fun call hcall => ?_, fun name hname => ?_⟩
  · rw [hsame]
    exact h.started call ((hcalls call).mp hcall)
  · rw [hsame]
    exact h.others name fun call hcall => hname call ((hcalls call).mpr hcall)

theorem start_recorded (cfg : ServiceConfig) (svc : Service) (s : Schedule) (id : Uuid) (now : OffsetDateTime)
    (fault : Option String) :
    (svc.start cfg s id now fault).2.schedules = svc.schedules ∧
      ∀ call, call ∈ (svc.start cfg s id now fault).2.returnedCalls ↔ call ∈ svc.returnedCalls := by
  rw [Service.start]
  split
  · exact ⟨rfl, fun _ => Iff.rfl⟩
  · refine ⟨rfl, fun call => ?_⟩
    simp only [mem_returnedCalls, List.mem_append, List.mem_singleton]
    constructor
    · intro h
      obtain ⟨hcall | rfl, hreturned⟩ := h
      · exact ⟨hcall, hreturned⟩
      · cases hreturned
    · intro h
      exact ⟨.inl h.1, h.2⟩

/-- A start that had not returned goes on. -/
theorem mem_returnedCalls_set {calls : List StartCall} {i : ℕ} {old : StartCall} (new call : StartCall)
    (hold : calls[i]? = some old) (hphase : old.phase ≠ .returned) :
    (call ∈ calls.set i new ∧ call.phase = .returned) ↔
      (call = new ∧ new.phase = .returned) ∨ (call ∈ calls ∧ call.phase = .returned) := by
  have hlt : i < calls.length := (List.getElem?_eq_some_iff.mp hold).1
  simp only [List.mem_iff_getElem?, List.getElem?_set]
  constructor
  · intro h
    obtain ⟨⟨j, hj⟩, hreturned⟩ := h
    split at hj
    · obtain rfl := Option.some.inj hj
      exact .inl ⟨rfl, hreturned⟩
    · exact .inr ⟨⟨j, hj⟩, hreturned⟩
  · intro h
    rcases h with ⟨rfl, hreturned⟩ | ⟨⟨j, hj⟩, hreturned⟩
    · exact ⟨⟨i, by simp [hlt]⟩, hreturned⟩
    · refine ⟨⟨j, ?_⟩, hreturned⟩
      rw [if_neg, hj]
      intro heq
      rw [← heq, hold] at hj
      exact hphase (Option.some.inj hj ▸ hreturned)

theorem read_recorded {i : ℕ} {fault : Bool} (h : Recorded file svc.returnedCalls svc) :
    Recorded file (svc.read i fault).returnedCalls (svc.read i fault) := by
  rw [Service.read]
  split
  · rename_i s createdAt hcall
    refine recorded_of_eq h rfl fun call => ?_
    rw [mem_returnedCalls, mem_returnedCalls, mem_returnedCalls_set _ _ hcall (fun h => by cases h)]
    exact or_iff_right fun hnew => by cases hnew.2
  · exact h

/-- A write that loses nothing records its start and keeps the rest. -/
theorem save_recorded {i : ℕ} {now : OffsetDateTime} {fault : Option String}
    (h : Recorded file svc.returnedCalls svc) (hclean : svc.Clean (.save i now fault)) :
    Recorded file (svc.save i now fault).returnedCalls (svc.save i now fault) := by
  obtain ⟨rfl, hundisturbed⟩ := hclean
  rw [Service.save]
  split
  · rename_i s createdAt state hcall
    rw [Undisturbed, hcall] at hundisturbed
    obtain ⟨hothers, hown, hreturned⟩ := hundisturbed
    -- the write puts in its own start and keeps what the call had read
    have hentry (name : String) : (Service.recorded { svc with
        calls := svc.calls.set i ⟨s, createdAt, .returned⟩
        schedules := some (state.insert s.name now) })[name]? =
          if name = s.name then some now else svc.recorded[name]? := by
      change (state.insert s.name now)[name]? = _
      rw [getElem?_insert_ite]
      split
      · rfl
      · rename_i hne
        exact (hothers name hne).symm
    have hcalls (call : StartCall) := mem_returnedCalls_set ⟨s, createdAt, .returned⟩ call hcall fun h => by cases h
    -- a start of this schedule is the one written now; the others were not lost in between
    refine ⟨fun call hin => ?_, fun name hname => ?_⟩
    · rw [hentry]
      rw [mem_returnedCalls, hcalls] at hin
      split
      · rename_i hsame
        refine ⟨now, rfl, ?_⟩
        rcases hin with ⟨rfl, -⟩ | hin
        · exact hown
        · exact hreturned call (mem_returnedCalls.mpr hin) hsame
      · rename_i hne
        rcases hin with ⟨rfl, -⟩ | hin
        · exact absurd rfl hne
        · exact h.started call (mem_returnedCalls.mpr hin)
    · rw [hentry, if_neg]
      · refine h.others name fun call hin => hname call ?_
        rw [mem_returnedCalls, hcalls]
        exact .inr (mem_returnedCalls.mp hin)
      · intro heq
        refine hname ⟨s, createdAt, .returned⟩ ?_ heq.symm
        rw [mem_returnedCalls, hcalls]
        exact .inl ⟨rfl, rfl⟩
  · exact h

theorem step_recorded (h : Recorded file svc.returnedCalls svc) (hclean : svc.Clean sev) :
    Recorded file (svc.step cfg sev).returnedCalls (svc.step cfg sev) := by
  -- only the write of a start changes what is recorded
  cases sev with
  | manager ev => exact recorded_of_eq h rfl fun _ => Iff.rfl
  | poll now fault =>
    rw [Service.step, Service.poll]
    split
    · exact recorded_of_eq h rfl fun _ => Iff.rfl
    · exact h
  | check id now fault =>
    rw [Service.step, Service.check]
    split
    · rename_i polled state rest awaited hphase
      split
      · cases rest with
        | nil => exact recorded_of_eq h rfl fun _ => Iff.rfl
        | cons s rest =>
          dsimp only
          split
          · exact recorded_of_eq h rfl fun _ => Iff.rfl
          · split
            · obtain ⟨hschedules, hcalls⟩ := start_recorded cfg svc s id now fault
              split <;> rename_i heq <;> rw [heq] at hschedules hcalls <;>
                exact recorded_of_eq h hschedules hcalls
            · exact recorded_of_eq h rfl fun _ => Iff.rfl
      · exact h
    · exact h
  | runSchedule name id now fault =>
    rw [Service.step, Service.runSchedule]
    split
    · exact h
    · obtain ⟨hschedules, hcalls⟩ := start_recorded cfg svc _ id now fault
      exact recorded_of_eq h hschedules hcalls
  | read i fault => exact read_recorded h
  | save i now fault => exact save_recorded h hclean

/-! ### Runs -/

theorem run_recorded (h : Recorded file svc.returnedCalls svc) (hclean : svc.CleanRun cfg evs) :
    Recorded file (svc.run cfg evs).returnedCalls (svc.run cfg evs) := by
  induction evs generalizing svc with
  | nil => exact h
  | cons sev evs ih => exact ih (step_recorded h hclean.1) hclean.2

/-- In every run whose writes succeed and lose nothing: once all starts have returned, every started
schedule has a last run no earlier than its starts, and the other entries are as they were. -/
theorem schedule_records_kept (cfg : ServiceConfig) (svc : Service) (evs : List ServiceEvent)
    (hsvc : svc.calls = []) (hclean : svc.CleanRun cfg evs)
    (hdone : ∀ call ∈ (svc.run cfg evs).calls, call.phase = .returned) :
    Recorded svc.recorded (svc.run cfg evs).calls (svc.run cfg evs) := by
  have hstart : Recorded svc.recorded svc.returnedCalls svc := by
    have hnone : svc.returnedCalls = [] := by rw [returnedCalls, hsvc]; rfl
    rw [hnone]
    exact ⟨fun call hcall => absurd hcall List.not_mem_nil, fun _ _ => rfl⟩
  have hall : (svc.run cfg evs).returnedCalls = (svc.run cfg evs).calls := by
    refine List.filter_eq_self.mpr fun call hcall => ?_
    rw [hdone call hcall]
  rw [← hall]
  exact run_recorded hstart hclean

/-- Two clients start two schedules. -/
def twoStarts : List ServiceEvent :=
  [.runSchedule "hourly" 1 (onSep25 100) none, .runSchedule "daily" 2 (onSep25 101) none]

/-- One start after the other. -/
def apart : List ServiceEvent :=
  twoStarts ++ [.read 0 false, .save 0 (onSep25 102) none, .read 1 false, .save 1 (onSep25 103) none]

theorem apart_clean : hourlyService.CleanRun hourlyConfig apart := by
  refine ⟨trivial, trivial, trivial, ⟨rfl, fun _ _ => rfl, ?_, ?_⟩, trivial, ⟨rfl, fun _ _ => rfl, ?_, ?_⟩,
    trivial⟩ <;> decide

theorem apart_returned : ∀ call ∈ (hourlyService.run hourlyConfig apart).calls, call.phase = .returned := by
  have hcalls : (hourlyService.run hourlyConfig apart).calls =
      [⟨hourlyCheck, onSep25 100, .returned⟩, ⟨dailyScan, onSep25 101, .returned⟩] := rfl
  rw [hcalls]
  simp

theorem schedule_records_kept_sample :
    Recorded hourlyService.recorded (hourlyService.run hourlyConfig apart).calls
      (hourlyService.run hourlyConfig apart) :=
  schedule_records_kept hourlyConfig hourlyService apart rfl apart_clean apart_returned

/-- Both read before either writes. -/
def interleaved : List ServiceEvent :=
  twoStarts ++ [.read 0 false, .read 1 false, .save 0 (onSep25 102) none, .save 1 (onSep25 103) none]

def ServiceEvent.writeFails : ServiceEvent → Bool
  | .save _ _ fault => fault.isSome
  | _ => false

/-- The run that was written first is lost. -/
theorem schedule_record_lost : ¬ ∀ (cfg : ServiceConfig) (svc : Service) (evs : List ServiceEvent),
    cfg.validate = .ok () → svc.calls = [] → (∀ sev ∈ evs, sev.writeFails = false) →
      (∀ call ∈ (svc.run cfg evs).calls, call.phase = .returned) →
      Recorded svc.recorded (svc.run cfg evs).calls (svc.run cfg evs) := by
  intro h
  have hcalls : (hourlyService.run hourlyConfig interleaved).calls =
      [⟨hourlyCheck, onSep25 100, .returned⟩, ⟨dailyScan, onSep25 101, .returned⟩] := rfl
  have hsample := h hourlyConfig hourlyService interleaved rfl rfl (by decide) (by rw [hcalls]; simp)
  obtain ⟨last, hlast, -⟩ := hsample.started ⟨hourlyCheck, onSep25 100, .returned⟩
    (by rw [hcalls]; exact List.mem_cons_self)
  have hlost : (hourlyService.run hourlyConfig interleaved).recorded["hourly"]? = none := by decide
  change (hourlyService.run hourlyConfig interleaved).recorded["hourly"]? = some last at hlast
  rw [hlost] at hlast
  cases hlast

end AbyssalWarden
