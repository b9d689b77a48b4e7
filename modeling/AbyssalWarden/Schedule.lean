import AbyssalWarden.Clock
import AbyssalWarden.ServiceConfig

/-! When a schedule is next due, and what the scheduler's poll makes of it. The instant is
computed again, with a fresh `now`, at every poll. -/
namespace AbyssalWarden

/-- The configured time of day, if the schedule has one. -/
def Schedule.runTime (s : Schedule) : Option Time :=
  (s.atUtc.bind parseHhmm).map fun (h, m) => (Time.fromHms h m 0).getD Time.midnight

/-- When `s` is next due, given its last run. -/
def nextDue (s : Schedule) (last : Option OffsetDateTime) (now : OffsetDateTime) :
    Option OffsetDateTime :=
  let interval := Duration.hours s.everyHours
  match s.runTime with
  | none =>
    match last with
    -- a schedule that never ran is due at once
    | none => some now
    | some l => l.add interval
  | some c =>
    match last with
    -- whole days after the day of the last run, whatever its time was
    | some l => (l.date.addDays (s.everyHours / 24 : ℕ)).map (·.withTime c)
    | none =>
      -- one that never ran is due when its time of day comes next
      let today := now.date.withTime c
      if today ≥ now then some today else today.add (Duration.days 1)

/-- The test of the scheduler loop: `now >= next_due(s, last, now)`. -/
def pollFindsDue (s : Schedule) (last : Option OffsetDateTime) (now : OffsetDateTime) : Bool :=
  match nextDue s last now with
  | some due => decide (now ≥ due)
  | none => false

theorem pollFindsDue_iff {s : Schedule} {last : Option OffsetDateTime} {now : OffsetDateTime} :
    pollFindsDue s last now = true ↔ ∃ due, nextDue s last now = some due ∧ due ≤ now := by
  unfold pollFindsDue
  split <;> simp [*]

/-- Once a run is recorded, the next instant no longer depends on the poll. -/
theorem nextDue_of_last (s : Schedule) (l t t' : OffsetDateTime) :
    nextDue s (some l) t = nextDue s (some l) t' := by
  unfold nextDue
  split <;> rfl

theorem nextDue_interval_first {s : Schedule} (hs : s.runTime = none) (now : OffsetDateTime) :
    nextDue s none now = some now := by
  simp only [nextDue, hs]

/-- A time-of-day schedule that never ran is due at the poll whose clock shows that very
time, and at no other. -/
theorem pollFindsDue_first_at {s : Schedule} {c : Time} (hs : s.runTime = some c)
    (now : OffsetDateTime) : pollFindsDue s none now = true ↔ now.time = c := by
  have htime : now.time = c ↔ now.time.nanos = c.nanos := by
    cases hn : now.time
    cases c
    simp
  rw [pollFindsDue_iff, htime]
  simp only [nextDue, hs]
  by_cases htoday : now ≤ now.date.withTime c
  · rw [if_pos htoday]
    have hle := now.le_date_withTime_iff c
    have hge := now.date_withTime_le_iff c
    constructor
    · rintro ⟨due, hdue, hdn⟩
      cases hdue
      have h1 := hle.mp htoday
      have h2 := hge.mp hdn
      omega
    · intro h
      exact ⟨_, rfl, hge.mpr (by omega)⟩
  · rw [if_neg htoday]
    have hlt : c.nanos < now.time.nanos := by
      have h := mt (now.le_date_withTime_iff c).mpr htoday
      omega
    constructor
    · rintro ⟨due, hdue, hdn⟩
      -- tomorrow's instant is never before today's clock
      unfold OffsetDateTime.add at hdue
      split at hdue
      · cases hdue
        rw [OffsetDateTime.le_iff] at hdn
        simp only [Date.withTime, OffsetDateTime.date, Duration.days] at hdn
        have hc := c.in_range
        unfold nanosPerDay at *
        omega
      · cases hdue
    · intro h
      omega

theorem Schedule.Valid.runTime_eq_none {s : Schedule} (hs : s.Valid) :
    s.runTime = none ↔ s.atUtc = none := by
  constructor
  · intro h
    cases ha : s.atUtc with
    | none => rfl
    | some a =>
      have hp := (hs.at_ok a ha).1
      simp only [Schedule.runTime, ha, Option.bind_some, Option.map_eq_none_iff] at h
      exact False.elim (hp h)
  · intro h
    simp [Schedule.runTime, h]

def dailyScan : Schedule where
  name := "daily"
  kind := .scan
  paths := ["/srv"]
  everyHours := 24
  atUtc := some "03:30"
  heuristics := false
  quarantine := false

def dailyConfig : ServiceConfig where
  socket := "/run/abyssal-warden/wardend.sock"
  stateDir := "/var/lib/abyssal-warden/service"
  quarantineStore := "/var/lib/abyssal-warden/quarantine"
  content := []
  keyrings := []
  updateSource := none
  maxConcurrentJobs := 1
  maxQueuedJobs := 32
  jobTimeoutMinutes := 240
  historyLimit := 200
  auditCheckHours := 24
  schedules := [dailyScan]

instance neZeroSecondsPerDay : NeZero 86400 := ⟨by decide⟩

/-- 2026-09-25, at the given second of the day. -/
def onSep25 (second : Fin 86400) : OffsetDateTime :=
  ⟨20721 * nanosPerDay + second.val * 10^9, by
    have h := second.isLt
    unfold nanosPerDay
    omega⟩

/-- An announced instant that has passed makes the poll find the schedule due, exactly when
the schedule has no time of day, or has run before, or the clock shows that time of day. -/
theorem announced_run_found_iff {cfg : ServiceConfig} {s : Schedule}
    (hcfg : cfg.validate = .ok ()) (hs : s ∈ cfg.schedules) (last : Option OffsetDateTime)
    (t0 t1 due : OffsetDateTime) (hdue : nextDue s last t0 = some due)
    (hpassed : due ≤ t1) :
    pollFindsDue s last t1 = true ↔
      s.atUtc = none ∨ last ≠ none ∨ s.runTime = some t1.time := by
  have hv := ServiceConfig.validate_schedules hcfg s hs
  rw [← hv.runTime_eq_none]
  cases last with
  | some l =>
    have hfound : pollFindsDue s (some l) t1 = true :=
      pollFindsDue_iff.mpr ⟨due, by rw [nextDue_of_last s l t1 t0, hdue], hpassed⟩
    simp [hfound]
  | none =>
    cases hc : s.runTime with
    | none =>
      have hfound : pollFindsDue s none t1 = true :=
        pollFindsDue_iff.mpr ⟨t1, nextDue_interval_first hc t1, le_rfl⟩
      simp [hfound]
    | some c =>
      rw [pollFindsDue_first_at hc]
      simp only [reduceCtorEq, ne_eq, not_true_eq_false, Option.some.injEq, false_or]
      exact eq_comm

theorem announced_run_found_iff_daily :
    pollFindsDue dailyScan none (onSep25 12620) = true ↔
      dailyScan.atUtc = none ∨ (none : Option OffsetDateTime) ≠ none ∨
        dailyScan.runTime = some (onSep25 12620).time :=
  announced_run_found_iff (show dailyConfig.validate = .ok () from rfl) (List.mem_singleton.mpr rfl) none
    (onSep25 7200) (onSep25 12620) (onSep25 12600) (by decide) (by decide)

/-- A daily schedule that never ran, announced at 02:00 for 03:30, is not started by the poll
at 03:30:20. -/
theorem daily_first_run_missed :
    ¬ ∀ (cfg : ServiceConfig) (s : Schedule), cfg.validate = .ok () → s ∈ cfg.schedules →
      ∀ (last : Option OffsetDateTime) (t0 t1 due : OffsetDateTime), t0 ≤ t1 →
        nextDue s last t0 = some due → due ≤ t1 → pollFindsDue s last t1 = true := by
  intro h
  have hfound := h dailyConfig dailyScan rfl (List.mem_singleton.mpr rfl) none
    (onSep25 7200) (onSep25 12620) (onSep25 12600) (by decide) (by decide) (by decide)
  revert hfound
  decide

end AbyssalWarden
