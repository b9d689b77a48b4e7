import Mathlib

/-! Calendar time in the range of the `time` crate: years -9999 to 9999, to the nanosecond.
Every recorded time comes from `now_utc`, so one UTC line of nanoseconds since the epoch is
enough. Arithmetic that the crate answers with a panic is `none`. -/
namespace AbyssalWarden

def nanosPerDay : ℤ := 86400 * 10^9

/-- A signed length of time, in nanoseconds. -/
abbrev Duration := ℤ

def Duration.hours (n : ℤ) : Duration := n * (3600 * 10^9)

def Duration.minutes (n : ℤ) : Duration := n * (60 * 10^9)

def Duration.days (n : ℤ) : Duration := n * nanosPerDay

/-- Day numbers count from the epoch. -/
structure Date where
  day : ℤ
  in_range : -4371587 ≤ day ∧ day ≤ 2932896
  deriving DecidableEq

structure Time where
  nanos : ℤ
  in_range : 0 ≤ nanos ∧ nanos < nanosPerDay
  deriving DecidableEq

structure OffsetDateTime where
  nanos : ℤ
  in_range : -4371587 * nanosPerDay ≤ nanos ∧ nanos < 2932897 * nanosPerDay
  deriving DecidableEq

def epoch : OffsetDateTime := ⟨0, by decide⟩

theorem nanosPerDay_in_range : -4371587 * nanosPerDay ≤ nanosPerDay ∧ nanosPerDay < 2932897 * nanosPerDay := by decide

/-- The times that RFC 3339 can write: from the year 0 on. -/
def OffsetDateTime.Rfc3339 (t : OffsetDateTime) : Prop := -719528 * nanosPerDay ≤ t.nanos

/-- `OffsetDateTime::from_unix_timestamp` -/
def OffsetDateTime.fromUnixTimestamp (secs : ℤ) : Option OffsetDateTime :=
  if h : -4371587 * nanosPerDay ≤ secs * 10^9 ∧ secs * 10^9 < 2932897 * nanosPerDay then
    some ⟨secs * 10^9, h⟩
  else none

/-- What `now_utc` returns: the clock is set to a year after 0. -/
abbrev Now := {t : OffsetDateTime // t.Rfc3339}

theorem OffsetDateTime.nanos_injective : Function.Injective OffsetDateTime.nanos := by
  intro a b h
  cases a
  cases b
  simpa using h

instance : LinearOrder OffsetDateTime :=
  LinearOrder.lift' OffsetDateTime.nanos OffsetDateTime.nanos_injective

theorem OffsetDateTime.le_iff (a b : OffsetDateTime) : a ≤ b ↔ a.nanos ≤ b.nanos := Iff.rfl

theorem OffsetDateTime.lt_iff (a b : OffsetDateTime) : a < b ↔ a.nanos < b.nanos := by
  rw [lt_iff_not_ge, lt_iff_not_ge, OffsetDateTime.le_iff]

def Time.midnight : Time := ⟨0, by decide⟩

def Time.fromHms (h m s : ℕ) : Option Time :=
  if hv : h < 24 ∧ m < 60 ∧ s < 60 then
    some ⟨(h * 3600 + m * 60 + s) * 10^9, by
      obtain ⟨hh, hm, hs⟩ := hv
      unfold nanosPerDay
      constructor <;> omega⟩
  else none

namespace OffsetDateTime

def date (t : OffsetDateTime) : Date :=
  ⟨t.nanos / nanosPerDay, by
    have h := t.in_range
    unfold nanosPerDay at *
    omega⟩

def time (t : OffsetDateTime) : Time :=
  ⟨t.nanos % nanosPerDay, by
    unfold nanosPerDay
    omega⟩

def add (t : OffsetDateTime) (d : Duration) : Option OffsetDateTime :=
  if h : -4371587 * nanosPerDay ≤ t.nanos + d ∧ t.nanos + d < 2932897 * nanosPerDay then
    some ⟨t.nanos + d, h⟩
  else none

end OffsetDateTime

def Date.addDays (d : Date) (n : ℤ) : Option Date :=
  if h : -4371587 ≤ d.day + n ∧ d.day + n ≤ 2932896 then some ⟨d.day + n, h⟩ else none

def Date.withTime (d : Date) (t : Time) : OffsetDateTime :=
  ⟨d.day * nanosPerDay + t.nanos, by
    have hd := d.in_range
    have ht := t.in_range
    unfold nanosPerDay at *
    omega⟩

theorem OffsetDateTime.date_withTime_time (t : OffsetDateTime) : t.date.withTime t.time = t := by
  apply OffsetDateTime.nanos_injective
  change t.nanos / nanosPerDay * nanosPerDay + t.nanos % nanosPerDay = t.nanos
  exact Int.ediv_mul_add_emod t.nanos nanosPerDay

/-- On the day of `t` the clock shows `at` at `t` itself, or before, or after it. -/
theorem OffsetDateTime.date_withTime_le_iff (t : OffsetDateTime) (c : Time) :
    t.date.withTime c ≤ t ↔ c.nanos ≤ t.time.nanos := by
  conv_lhs => rw [← t.date_withTime_time]
  rw [OffsetDateTime.le_iff]
  simp only [Date.withTime, OffsetDateTime.date, OffsetDateTime.time]
  have h := t.in_range
  unfold nanosPerDay
  omega

theorem OffsetDateTime.le_date_withTime_iff (t : OffsetDateTime) (c : Time) :
    t ≤ t.date.withTime c ↔ t.time.nanos ≤ c.nanos := by
  conv_lhs => rw [← t.date_withTime_time]
  rw [OffsetDateTime.le_iff]
  simp only [Date.withTime, OffsetDateTime.date, OffsetDateTime.time]
  unfold nanosPerDay
  omega

end AbyssalWarden
