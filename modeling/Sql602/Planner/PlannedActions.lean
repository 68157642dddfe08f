import Mathlib.Data.Nat.Bitwise
import Sql602.Convert.CalendarDays

namespace Sql602.Planner

open Sql602.Convert

/-! The decision to start a planned action. -/

def noneInteger : Nat := 0x80000000

/-- A code of the plan with all bits set is an interval. -/
def shallRun (represented : Nat → Bool) (dtmNow timeWindow lastRun planCode planTime : Nat) :
    Bool :=
  if planCode = noneInteger ∨ planTime = noneInteger then false
  else if planCode = 2 ^ 32 - 1 then (lastRun + planTime / 1000) % 2 ^ 32 ≤ dtmNow
  else
    let timeWindow :=
      if timeWindow = noneInteger then 86400000
      else if timeWindow < 60000 then 60000
      else timeWindow
    let lastDate := timestamp2date lastRun
    let lastTime := timestamp2time lastRun
    let nowDate := timestamp2date dtmNow
    let nowTime := timestamp2time dtmNow
    if planTime ≤ nowTime then
      decide (nowTime < (planTime + timeWindow) % 2 ^ 32) &&
        (decide (lastTime < planTime) || decide (lastDate < nowDate)) &&
        planCode &&& 1 <<< dayOfWeek represented nowDate != 0
    else
      decide (nowTime + 86400000 < (planTime + timeWindow) % 2 ^ 32) &&
        decide (lastDate < nowDate) &&
        (decide (lastTime < planTime) || decide (lastDate < dtMinus nowDate 1)) &&
        -- The number of the weekday is taken for a date.
        (let yesterday := if dayOfWeek represented nowDate = 0 then 6
          else dayOfWeek represented nowDate - 1
        planCode &&& 1 <<< dayOfWeek represented yesterday != 0)

/-! When an action is due. -/

/-- Times of the day and the tolerance are in thousandths of a second. -/
structure WeekdayPlan where
  mask : Nat
  planTime : Nat
  window : Nat
  mask_pos : 0 < mask
  mask_lt : mask < 2 ^ 7
  planTime_lt : planTime < 86400000
  window_ge : 60000 ≤ window
  window_le : window ≤ 86400000

/-- The thousandths of a second since the start of the year 0. -/
def instant (moment : Moment) : Nat :=
  86400000 * moment.toCalendarDate.number + moment.time 0

namespace WeekdayPlan

variable (plan : WeekdayPlan)

def plannedAt (day : Nat) : Nat := 86400000 * day + plan.planTime

def plannedOn (day : Nat) : Bool := plan.mask.testBit (weekday day)

/-- The planned time of the day is the latest one. -/
structure IsLatest (now : Moment) (day : Nat) : Prop where
  reached : plan.plannedAt day ≤ instant now
  last : instant now < plan.plannedAt (day + 1)

structure Within (last now : Moment) (day : Nat) : Prop where
  recent : instant now < plan.plannedAt day + plan.window
  pending : instant last < plan.plannedAt day

def Due (last now : Moment) : Prop :=
  ∃ day, plan.IsLatest now day ∧ plan.Within last now day ∧ plan.plannedOn day = true

/-- What the decision is for the moments. -/
def starts (represented : Nat → Bool) (last now : Moment) : Bool :=
  shallRun represented now.seconds plan.window last.seconds plan.mask plan.planTime

/-- The weekday that is tested in the place of yesterday; a bit that is not in the mask
stands for none. -/
def testedWeekday (represented : Nat → Bool) (yesterday : Nat) : Nat :=
  if represented (weekday yesterday) = false then 7 else weekday (weekday yesterday)

/-- The weekday of yesterday is tested, and it is not the one that the mask should be asked
for. -/
structure Misjudges (represented : Nat → Bool) (last now : Moment) : Prop where
  notReached : instant now < plan.plannedAt now.number
  within : plan.Within last now (now.number - 1)
  differs : plan.mask.testBit (testedWeekday represented (now.number - 1)) ≠
    plan.plannedOn (now.number - 1)

end WeekdayPlan

section Dates

variable {moment : Moment} (hfits : moment.Representable)
include hfits

theorem timestamp2date_seconds : timestamp2date moment.seconds = moment.code := by
  rw [← encoded hfits, timestamp2date_encoded hfits]

theorem timestamp2time_seconds : timestamp2time moment.seconds = moment.time 0 := by
  rw [← encoded hfits, timestamp2time_encoded hfits]

omit hfits in
theorem time_lt_day (moment : Moment) : moment.time 0 < 86400000 :=
  moment.time_lt (by decide)

theorem number_pos : 0 < moment.number := by
  have hyear : daysBeforeYear 1900 ≤ daysBeforeYear moment.year :=
    daysBeforeYear_mono hfits.year_ge
  have hstart : daysBeforeYear 1900 = 693961 := by decide
  unfold CalendarDate.number dayNumber
  omega

end Dates

theorem testBit_iff {mask bit : Nat} : (mask &&& 1 <<< bit != 0) = mask.testBit bit := by
  rw [Nat.one_shiftLeft, Nat.and_two_pow]
  cases mask.testBit bit with
  | false => simp only [Bool.toNat_false, Nat.zero_mul, bne_self_eq_false]
  | true =>
      rw [Bool.toNat_true, Nat.one_mul, bne_iff_ne]
      exact Nat.two_pow_pos bit |>.ne'

theorem weekday_yesterday {day : Nat} (hday : 0 < day) :
    (if weekday day = 0 then 6 else weekday day - 1) = weekday (day - 1) := by
  unfold weekday
  split <;> omega

theorem weekday_lt (day : Nat) : weekday day < 7 := Nat.mod_lt _ (by decide)

theorem dayOfWeek_weekday (represented : Nat → Bool) {number : Nat} (hnumber : number < 7) :
    dayOfWeek represented number = if represented number = false then 7 else weekday number := by
  -- The first days of the year 0.
  let date : CalendarDate :=
    ⟨0, 1, number + 1, by decide, by decide, by decide, Nat.succ_pos number, by
      change number + 1 ≤ 31
      omega⟩
  have hcode : date.code = number := by
    rw [date.code_eq]
    change number + 1 - 1 + 31 * (1 - 1 + 12 * 0) = number
    omega
  have hnumber : date.number = number := by
    change daysBeforeYear 0 + daysBeforeMonth 0 1 + (number + 1 - 1) = number
    have hyear : daysBeforeYear 0 = 0 := rfl
    have hmonth : daysBeforeMonth 0 1 = 0 := rfl
    omega
  rw [← hcode, CalendarDate.dayOfWeek_code, hcode, hnumber]

namespace WeekdayPlan

variable (plan : WeekdayPlan) {represented : Nat → Bool} {last now : Moment}

theorem shallRun_mask (dtmNow lastRun : Nat) :
    shallRun represented dtmNow plan.window lastRun plan.mask plan.planTime =
      if plan.planTime ≤ timestamp2time dtmNow then
        decide (timestamp2time dtmNow < plan.planTime + plan.window) &&
          (decide (timestamp2time lastRun < plan.planTime) ||
            decide (timestamp2date lastRun < timestamp2date dtmNow)) &&
          plan.mask.testBit (dayOfWeek represented (timestamp2date dtmNow))
      else
        decide (timestamp2time dtmNow + 86400000 < plan.planTime + plan.window) &&
          decide (timestamp2date lastRun < timestamp2date dtmNow) &&
          (decide (timestamp2time lastRun < plan.planTime) ||
            decide (timestamp2date lastRun < dtMinus (timestamp2date dtmNow) 1)) &&
          plan.mask.testBit (dayOfWeek represented
            (if dayOfWeek represented (timestamp2date dtmNow) = 0 then 6
            else dayOfWeek represented (timestamp2date dtmNow) - 1)) := by
  have hmask := plan.mask_lt
  have htime := plan.planTime_lt
  have hlow := plan.window_ge
  have hhigh := plan.window_le
  have hcode : ¬ (plan.mask = noneInteger ∨ plan.planTime = noneInteger) := by
    unfold noneInteger
    omega
  have hinterval : plan.mask ≠ 2 ^ 32 - 1 := by omega
  have hwindow : plan.window ≠ noneInteger := by
    unfold noneInteger
    omega
  have hsum : (plan.planTime + plan.window) % 2 ^ 32 = plan.planTime + plan.window :=
    Nat.mod_eq_of_lt (by omega)
  unfold shallRun
  rw [if_neg hcode, if_neg hinterval]
  simp only [if_neg hwindow, if_neg (Nat.not_lt_of_le hlow), hsum, testBit_iff]

section Branches

variable (hlast : last.Representable) (hnow : now.Representable)
  (hle : instant last ≤ instant now)
include hlast hnow hle

theorem starts_today (htoday : represented now.number = true)
    (hreached : plan.planTime ≤ now.time 0) :
    plan.starts represented last now = true ↔
      plan.Within last now now.number ∧ plan.plannedOn now.number = true := by
  have htime := time_lt_day last
  have htime' := time_lt_day now
  have hplan := plan.planTime_lt
  rw [starts, shallRun_mask, timestamp2date_seconds hnow, timestamp2time_seconds hnow,
    timestamp2date_seconds hlast, timestamp2time_seconds hlast, if_pos hreached,
    CalendarDate.dayOfWeek_code, htoday, if_neg Bool.true_eq_false.mp]
  simp only [Bool.and_eq_true, Bool.or_eq_true, decide_eq_true_eq, plannedOn,
    ← CalendarDate.number_lt_iff]
  refine and_congr_left fun _ => ?_
  constructor
  · rintro ⟨hrecent, hpending⟩
    constructor
    · unfold instant plannedAt
      omega
    · unfold instant plannedAt at *
      omega
  · rintro ⟨hrecent, hpending⟩
    unfold instant plannedAt at *
    omega

theorem starts_yesterday (htoday : represented now.number = true)
    (hreached : now.time 0 < plan.planTime) :
    plan.starts represented last now = true ↔
      plan.Within last now (now.number - 1) ∧
        plan.mask.testBit (testedWeekday represented (now.number - 1)) = true := by
  have htime := time_lt_day last
  have htime' := time_lt_day now
  have hplan := plan.planTime_lt
  have hpos := number_pos hnow
  have hyear := hnow.year_ge
  obtain ⟨previous, hprevious, hnumber⟩ := now.dtMinus_one (by omega)
  have hyesterday : previous.number = now.number - 1 := by omega
  rw [starts, shallRun_mask, timestamp2date_seconds hnow, timestamp2time_seconds hnow,
    timestamp2date_seconds hlast, timestamp2time_seconds hlast,
    if_neg (Nat.not_le_of_lt hreached), CalendarDate.dayOfWeek_code, htoday,
    if_neg Bool.true_eq_false.mp, weekday_yesterday hpos,
    dayOfWeek_weekday represented (weekday_lt _), hprevious]
  simp only [Bool.and_eq_true, Bool.or_eq_true, decide_eq_true_eq,
    ← CalendarDate.number_lt_iff, hyesterday]
  refine and_congr_left fun _ => ?_
  constructor
  · rintro ⟨⟨hrecent, hbefore⟩, hpending⟩
    constructor
    · unfold instant plannedAt
      omega
    · unfold instant plannedAt at *
      omega
  · rintro ⟨hrecent, hpending⟩
    unfold instant plannedAt at *
    omega

end Branches

theorem isLatest_today (hreached : plan.planTime ≤ now.time 0) :
    plan.IsLatest now now.number := by
  have htime := time_lt_day now
  constructor
  · unfold instant plannedAt
    omega
  · unfold instant plannedAt
    omega

theorem isLatest_yesterday (hpos : 0 < now.number) (hreached : now.time 0 < plan.planTime) :
    plan.IsLatest now (now.number - 1) := by
  have hplan := plan.planTime_lt
  constructor
  · unfold instant plannedAt
    omega
  · unfold instant plannedAt
    omega

theorem IsLatest.unique {day other : Nat} (hday : plan.IsLatest now day)
    (hother : plan.IsLatest now other) : day = other := by
  have hreached := hday.reached
  have hlast := hday.last
  have hreached' := hother.reached
  have hlast' := hother.last
  unfold plannedAt at *
  omega

theorem due_iff {day : Nat} (hday : plan.IsLatest now day) :
    plan.Due last now ↔ plan.Within last now day ∧ plan.plannedOn day = true := by
  constructor
  · rintro ⟨other, hother, hdue⟩
    rw [hday.unique plan hother]
    exact hdue
  · intro hdue
    exact ⟨day, hday, hdue⟩

/-- A run that has been recorded is not started again for its planned time. -/
theorem not_started_again {later : Moment} {day : Nat} (hnow : now.Representable)
    (hlater : later.Representable) (hle : instant now ≤ instant later)
    (htoday : represented later.number = true) (hday : plan.IsLatest now day)
    (hsame : plan.IsLatest later day) : plan.starts represented now later = false := by
  rw [← Bool.not_eq_true]
  intro hstarts
  have hpending : ∀ other, plan.IsLatest later other → ¬ plan.Within now later other := by
    intro other hother hwithin
    rw [hother.unique plan hsame] at hwithin
    exact Nat.not_lt_of_le hday.reached hwithin.pending
  cases Nat.lt_or_ge (later.time 0) plan.planTime with
  | inl hbefore =>
      rw [plan.starts_yesterday hnow hlater hle htoday hbefore] at hstarts
      exact hpending _ (plan.isLatest_yesterday (number_pos hlater) hbefore) hstarts.1
  | inr hreached =>
      rw [plan.starts_today hnow hlater hle htoday hreached] at hstarts
      exact hpending _ (plan.isLatest_today hreached) hstarts.1

/-- The decision is right unless the planned time is that of yesterday and the mask has not the
same bit for the weekday that is tested. -/
theorem starts_right (hlast : last.Representable) (hnow : now.Representable)
    (hle : instant last ≤ instant now) (htoday : represented now.number = true) :
    (plan.starts represented last now = true ↔ plan.Due last now) ↔
      ¬ plan.Misjudges represented last now := by
  have hpos := number_pos hnow
  cases Nat.lt_or_ge (now.time 0) plan.planTime with
  | inr hreached =>
      have hright : plan.starts represented last now = true ↔ plan.Due last now := by
        rw [plan.starts_today hlast hnow hle htoday hreached,
          plan.due_iff (plan.isLatest_today hreached)]
      refine iff_of_true hright fun hmisjudges => ?_
      exact Nat.not_lt_of_le (plan.isLatest_today hreached).reached hmisjudges.notReached
  | inl hbefore =>
      have hlatest := plan.isLatest_yesterday hpos hbefore
      have hnot : instant now < plan.plannedAt now.number := by
        have hnext := hlatest.last
        rwa [Nat.sub_add_cancel hpos] at hnext
      rw [plan.starts_yesterday hlast hnow hle htoday hbefore, plan.due_iff hlatest]
      constructor
      · intro hright hmisjudges
        have hwithin := hmisjudges.within
        apply hmisjudges.differs
        rw [Bool.eq_iff_iff]
        simpa only [hwithin, true_and] using hright
      · intro hright
        refine and_congr_right fun hwithin => ?_
        rw [← Bool.eq_iff_iff]
        by_contra hdiffers
        exact hright ⟨hnot, hwithin, hdiffers⟩

/-- Sundays at a minute to midnight, within an hour. -/
def sundays : WeekdayPlan :=
  ⟨1, 86340000, 3600000, by decide, by decide, by decide, by decide, by decide⟩

theorem first_pos : 1 ≤ 1 := Nat.le_refl 1

theorem january_le : 1 ≤ 12 := by decide

theorem midnight_lt : 0 < 24 := by decide

theorem full_lt : 0 < 60 := by decide

/-- A minute past midnight, on a Monday. -/
def monday : Moment :=
  ⟨⟨2024, 1, 1, by decide, first_pos, january_le, first_pos, by decide⟩, 0, 1, 0, midnight_lt,
    by decide, full_lt⟩

def weekBefore : Moment :=
  ⟨⟨2023, 12, 25, by decide, january_le, by decide, by decide, by decide⟩, 0, 1, 0, midnight_lt,
    by decide, full_lt⟩

/-- The days from the year 1970 on. -/
def sinceEpoch (day : Nat) : Bool := 719528 ≤ day

theorem starts_right_monday :
    (sundays.starts (fun _ => true) weekBefore monday = true ↔ sundays.Due weekBefore monday) ↔
      ¬ sundays.Misjudges (fun _ => true) weekBefore monday :=
  sundays.starts_right ⟨by decide, by decide +kernel, by decide +kernel⟩
    ⟨by decide, by decide +kernel, by decide +kernel⟩ (by decide +kernel) rfl

theorem not_forall_starts_right :
    ¬ ∀ (plan : WeekdayPlan) (represented : Nat → Bool) (last now : Moment),
      last.Representable → now.Representable → instant last ≤ instant now →
        (∀ day, sinceEpoch day = true → represented day = true) →
          (plan.starts represented last now = true ↔ plan.Due last now) := by
  intro hall
  have hstarts := (hall sundays sinceEpoch weekBefore monday
    ⟨by decide, by decide +kernel, by decide +kernel⟩
    ⟨by decide, by decide +kernel, by decide +kernel⟩ (by decide +kernel) fun _ h => h).mpr
    ⟨monday.number - 1, ⟨by decide +kernel, by decide +kernel⟩,
      ⟨by decide +kernel, by decide +kernel⟩, by decide +kernel⟩
  have hnot : sundays.starts sinceEpoch weekBefore monday = false := by decide +kernel
  rw [hnot] at hstarts
  cases hstarts

end WeekdayPlan

end Sql602.Planner
