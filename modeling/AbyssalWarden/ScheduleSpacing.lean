import AbyssalWarden.Schedule

/-! How far apart the runs of a schedule are: the next one is due after the last, but not always within its period,
as a time of day counts from the day of the last run. -/
namespace AbyssalWarden

variable {s : Schedule} {l due now : OffsetDateTime} {c : Time} {cfg : ServiceConfig}

/-- After a run at `l` the schedule is due once, later than `l` and within its period, and no poll before that finds
it due. -/
def Spaced (s : Schedule) (l : OffsetDateTime) : Prop :=
  ∃ due, (∀ now, nextDue s (some l) now = some due) ∧ l < due ∧ (∀ now < due, pollFindsDue s (some l) now = false) ∧
    due.nanos ≤ l.nanos + Duration.hours s.everyHours

/-- The last instant there is. -/
def endOfTime : ℤ := 2932897 * nanosPerDay

/-- The period ends before the end of time, and the time of day has come when the schedule runs. -/
structure RunOnTime (s : Schedule) (l : OffsetDateTime) : Prop where
  representable : l.nanos + Duration.hours s.everyHours < endOfTime
  reached : ∀ c, s.runTime = some c → c.nanos ≤ l.time.nanos

theorem hours_pos (h : s.Valid) : (0 : ℤ) < Duration.hours s.everyHours := by
  have hpos := h.hours_pos
  change (0 : ℤ) < s.everyHours * (3600 * 10^9)
  omega

/-- A period of whole days. -/
theorem hours_eq_days {n : ℕ} (h : n % 24 = 0) : Duration.hours n = (n / 24 : ℕ) * nanosPerDay := by
  have hnanos : (n : ℤ) * (3600 * 10^9) = (n / 24 : ℕ) * (86400 * 10^9) := by omega
  exact hnanos

theorem nextDue_interval (h : s.runTime = none) : nextDue s (some l) now = l.add (Duration.hours s.everyHours) := by
  simp only [nextDue, h]

theorem nextDue_at (h : s.runTime = some c) :
    nextDue s (some l) now = (l.date.addDays (s.everyHours / 24 : ℕ)).map (·.withTime c) := by
  simp only [nextDue, h]

theorem Schedule.Valid.whole_days (h : s.Valid) (hc : s.runTime = some c) : s.everyHours % 24 = 0 := by
  cases hat : s.atUtc with
  | none =>
    have hnone := h.runTime_eq_none.mpr hat
    rw [hc] at hnone
    cases hnone
  | some a => exact (h.at_ok a hat).2

/-- How far the next run is moved from the end of the period, to the time of day. -/
def Schedule.shift (s : Schedule) (l : OffsetDateTime) : ℤ :=
  match s.runTime with
  | none => 0
  | some c => c.nanos - l.time.nanos

theorem Schedule.shift_none (h : s.runTime = none) : s.shift l = 0 := by
  simp only [Schedule.shift, h]

theorem Schedule.shift_some (h : s.runTime = some c) : s.shift l = c.nanos - l.time.nanos := by
  simp only [Schedule.shift, h]

/-! ### The next run -/

theorem add_eq_some {d : ℤ} (h : l.add d = some due) : due.nanos = l.nanos + d ∧ l.nanos + d < endOfTime := by
  unfold OffsetDateTime.add at h
  split at h
  · rename_i hrange
    cases Option.some.inj h
    exact ⟨rfl, hrange.2⟩
  · cases h

theorem exists_add {d : ℤ} (hd : 0 ≤ d) (h : l.nanos + d < endOfTime) : ∃ due, l.add d = some due := by
  have hrange := l.in_range
  exact ⟨_, dif_pos ⟨by omega, h⟩⟩

/-- The day that many days after the day of `l` is there if the instant is. -/
theorem addDays_le_iff {k : ℕ} : l.date.day + k ≤ 2932896 ↔ l.nanos + k * nanosPerDay < endOfTime := by
  have htime : l.nanos = l.date.day * nanosPerDay + l.time.nanos := (Int.ediv_mul_add_emod l.nanos nanosPerDay).symm
  have hpart := l.time.in_range
  unfold endOfTime nanosPerDay at *
  omega

theorem addDays_eq_some {k : ℕ} (h : (l.date.addDays k).map (·.withTime c) = some due) :
    due.nanos = l.nanos + k * nanosPerDay + (c.nanos - l.time.nanos) ∧ l.nanos + k * nanosPerDay < endOfTime := by
  have htime : l.nanos = l.date.day * nanosPerDay + l.time.nanos := (Int.ediv_mul_add_emod l.nanos nanosPerDay).symm
  obtain ⟨date, hdate, hdue⟩ := Option.map_eq_some_iff.mp h
  unfold Date.addDays at hdate
  split at hdate
  · rename_i hrange
    refine ⟨?_, addDays_le_iff.mp hrange.2⟩
    rw [← hdue, ← Option.some.inj hdate]
    simp only [Date.withTime]
    rw [htime]
    ring
  · cases hdate

theorem exists_addDays {k : ℕ} (h : l.nanos + k * nanosPerDay < endOfTime) :
    ∃ due, (l.date.addDays k).map (·.withTime c) = some due := by
  have hday := l.date.in_range
  have hle := addDays_le_iff.mpr h
  rw [Date.addDays, dif_pos ⟨by omega, hle⟩]
  exact ⟨_, rfl⟩

/-- The next run is a period after the last, moved to the time of day. -/
theorem nextDue_eq_some (h : s.Valid) (hdue : nextDue s (some l) now = some due) :
    due.nanos = l.nanos + Duration.hours s.everyHours + s.shift l ∧
      l.nanos + Duration.hours s.everyHours < endOfTime := by
  cases hc : s.runTime with
  | none =>
    rw [nextDue_interval hc] at hdue
    rw [s.shift_none hc, add_zero]
    exact add_eq_some hdue
  | some c =>
    rw [nextDue_at hc] at hdue
    rw [s.shift_some hc, hours_eq_days (h.whole_days hc)]
    exact addDays_eq_some hdue

theorem exists_nextDue (h : s.Valid) (hrange : l.nanos + Duration.hours s.everyHours < endOfTime) :
    ∃ due, ∀ now, nextDue s (some l) now = some due := by
  cases hc : s.runTime with
  | none =>
    obtain ⟨due, hdue⟩ := exists_add (hours_pos h).le hrange
    exact ⟨due, fun now => (nextDue_interval hc).trans hdue⟩
  | some c =>
    rw [hours_eq_days (h.whole_days hc)] at hrange
    obtain ⟨due, hdue⟩ := exists_addDays hrange
    exact ⟨due, fun now => (nextDue_at hc).trans hdue⟩

/-- The next run is moved by less than a period. -/
theorem shift_lt (h : s.Valid) (l : OffsetDateTime) : l.nanos < l.nanos + Duration.hours s.everyHours + s.shift l := by
  cases hc : s.runTime with
  | none =>
    have hpos := hours_pos h
    rw [s.shift_none hc, add_zero]
    exact lt_add_of_pos_right l.nanos hpos
  | some c =>
    have hdays : 0 < s.everyHours / 24 := by
      have hpos := h.hours_pos
      have hwhole := h.whole_days hc
      omega
    have hfrom := c.in_range
    have hto := l.time.in_range
    have hday : (1 : ℤ) * nanosPerDay ≤ (s.everyHours / 24 : ℕ) * nanosPerDay :=
      mul_le_mul_of_nonneg_right (by exact_mod_cast hdays) (by decide)
    rw [s.shift_some hc, hours_eq_days (h.whole_days hc)]
    omega

theorem shift_nonpos_iff : s.shift l ≤ 0 ↔ ∀ c, s.runTime = some c → c.nanos ≤ l.time.nanos := by
  cases hc : s.runTime with
  | none =>
    rw [s.shift_none hc]
    simp
  | some c =>
    rw [s.shift_some hc]
    simp

/-- A run is followed by the next one within the period exactly when it was not before the time of day. -/
theorem spaced_iff (hcfg : cfg.validate = .ok ()) (hs : s ∈ cfg.schedules) (l : OffsetDateTime) :
    Spaced s l ↔ RunOnTime s l := by
  have hvalid := ServiceConfig.validate_schedules hcfg s hs
  constructor
  · rintro ⟨due, hdue, -, -, hwithin⟩
    obtain ⟨hnanos, hrange⟩ := nextDue_eq_some hvalid (hdue l)
    refine ⟨hrange, shift_nonpos_iff.mp ?_⟩
    omega
  · rintro ⟨hrange, hreached⟩
    obtain ⟨due, hdue⟩ := exists_nextDue hvalid hrange
    obtain ⟨hnanos, -⟩ := nextDue_eq_some hvalid (hdue l)
    have hmoved := shift_lt hvalid l
    have hwithin := shift_nonpos_iff.mpr hreached
    have hlater : l < due := by
      rw [OffsetDateTime.lt_iff]
      omega
    refine ⟨due, hdue, hlater, ?_, by omega⟩
    intro now hnow
    rw [pollFindsDue, hdue now]
    exact decide_eq_false (not_le.mpr hnow)

/-- A run at 04:00 of a schedule for 03:30. -/
theorem spaced_iff_sample : Spaced dailyScan (onSep25 14400) ↔ RunOnTime dailyScan (onSep25 14400) :=
  spaced_iff (show dailyConfig.validate = .ok () from rfl) (List.mem_singleton.mpr rfl) (onSep25 14400)

/-- A run at 01:00 makes a schedule for 03:30 every day skip that day. -/
theorem early_run_skips_period : dailyConfig.validate = .ok () ∧ dailyScan ∈ dailyConfig.schedules ∧
    nextDue dailyScan (some (onSep25 3600)) (onSep25 3600) =
      (onSep25 12600).add (Duration.days 1) ∧ ¬ Spaced dailyScan (onSep25 3600) := by
  refine ⟨rfl, List.mem_singleton.mpr rfl, by decide, ?_⟩
  rintro ⟨due, hdue, -, -, hwithin⟩
  have hlate : ∀ due, nextDue dailyScan (some (onSep25 3600)) (onSep25 3600) = some due →
      ¬ due.nanos ≤ (onSep25 3600).nanos + Duration.hours 24 := by
    intro due h
    obtain rfl := Option.some.inj h
    decide
  exact hlate due (hdue _) hwithin

end AbyssalWarden
