import MetricSql.Proofs.Window.Selection
import MetricSql.Window.Range

namespace MetricSql.DateRules

open Text Date

variable {r : DateRules} {w : Window} {a : Availability} {column start stop : String}

theorem defaultRecent_eq (hcol : r.column w ≠ "") :
    r.defaultRecent w = some (.between (r.column w)
      (w.period.windowStart r.yesterday (r.recentUnit w)).text r.yesterday.text) := by
  simp only [defaultRecent, hcol, if_false]

theorem dateWhere_recent_none (hmode : w.mode = .recent) :
    r.dateWhere w none = r.defaultRecent w := by
  simp only [dateWhere, Option.filter_none, hmode]

theorem dateWhere_recent_blank (hmode : w.mode = .recent) (hblank : a.isEmpty = true) :
    r.dateWhere w (some a) = r.defaultRecent w := by
  have hnone : (some a).filter (!·.isEmpty) = none := by simp [Option.filter, hblank]
  simp only [dateWhere, hnone, hmode]

theorem dateWhere_recent_known (hmode : w.mode = .recent) (hknown : a.isEmpty = false)
    (hcol : r.column w ≠ "") : r.dateWhere w (some a) = r.recentWhere a w := by
  have hsome : (some a).filter (!·.isEmpty) = some a := by simp [Option.filter, hknown]
  simp only [dateWhere, hsome, restrictedWhere, hcol, hmode, if_false]

theorem reportedRange_recent (hmode : w.mode = .recent) (hcol : r.column w ≠ "")
    (a? : Option Availability) : r.reportedRange w a? = r.reportedRecent w (r.column w) a? := by
  simp only [reportedRange, hcol, hmode, if_false]

theorem start?_of_isEmpty (h : a.isEmpty = true) : a.start? = none := by
  simp only [Availability.isEmpty, Bool.and_eq_true, Option.isNone_iff_eq_none] at h
  exact bind_ofText?_of_not_given h.1

theorem lastDay_of_isEmpty (h : a.isEmpty = true) : r.lastDay a = r.yesterday := by
  simp only [Availability.isEmpty, Bool.and_eq_true, Option.isNone_iff_eq_none] at h
  rw [lastDay, Availability.stop?, bind_ofText?_of_not_given h.2, Option.getD_none]

theorem recentSpan_of_isEmpty (h : a.isEmpty = true) (p : Period) :
    r.recentSpan a w p = (p.windowStart r.yesterday (r.recentUnit w), r.yesterday) := by
  rw [recentSpan, start?_of_isEmpty h, lastDay_of_isEmpty h]
  rfl

theorem monthRange_of_isEmpty (h : a.isEmpty = true) (hyesterday : r.yesterday.FourDigits)
    (hstart : 0 ≤ (Period.month.windowStart r.yesterday (r.recentUnit w)).year) :
    r.monthRange a w = some (r.recentSpan a w .month).texts := by
  have hlast := lastDay_of_isEmpty (r := r) h
  obtain ⟨written, hrange, hwritten⟩ := monthRange_eq_some (r := r) (a := a) (w := w)
    (by simp [start?_of_isEmpty h]) (hlast ▸ hyesterday)
  rw [recentSpan_of_isEmpty h, hlast] at hwritten
  rw [hrange, recentSpan_of_isEmpty h, hlast, hwritten.eq hyesterday hstart]
  rfl

theorem reportedRange_none (hmode : w.mode = .recent) (hcol : r.column w ≠ "")
    (h : r.dateWhere w none = some (.between column start stop)) :
    r.reportedRange w none =
      ⟨column, (r.yesterday.minusDays ((r.recentUnit w).toNat - 1)).text, stop⟩ ∧
    (w.period = .day → r.reportedRange w none = ⟨column, start, stop⟩) := by
  rw [dateWhere_recent_none hmode, defaultRecent_eq hcol] at h
  obtain ⟨rfl, rfl, rfl⟩ := DatePredicate.between.inj (Option.some.inj h)
  rw [reportedRange_recent hmode hcol]
  refine ⟨rfl, fun hperiod => ?_⟩
  rw [hperiod]
  rfl

theorem reportedRange_some (hmode : w.mode = .recent) (hcol : r.column w ≠ "")
    (hyesterday : r.yesterday.FourDigits)
    (hperiod : w.period = .day ∨ w.period = .week ∨ w.period = .month ∧ (a.isEmpty = true →
      0 ≤ (Period.month.windowStart r.yesterday (r.recentUnit w)).year))
    (h : r.dateWhere w (some a) = some (.between column start stop)) :
    r.reportedRange w (some a) = ⟨column, start, stop⟩ := by
  have hreported : r.reportedRange w (some a) =
      .ofBounds (r.column w) (r.recentRange a w) := by
    rw [reportedRange_recent hmode hcol, reportedRecent]
    obtain hp | hp | ⟨hp, -⟩ := hperiod <;> simp only [hp]
  rw [hreported]
  by_cases hblank : a.isEmpty = true
  · rw [dateWhere_recent_blank hmode hblank, defaultRecent_eq hcol] at h
    obtain ⟨rfl, rfl, rfl⟩ := DatePredicate.between.inj (Option.some.inj h)
    have hrange : r.recentRange a w = some (r.recentSpan a w w.period).texts := by
      obtain hp | hp | ⟨hp, hstart⟩ := hperiod
      · simp only [recentRange, hp, recentDay]
      · simp only [recentRange, hp, recentWeek]
      · simp only [recentRange, hp, monthRange_of_isEmpty hblank hyesterday (hstart hblank)]
    rw [hrange, recentSpan_of_isEmpty hblank]
    rfl
  · rw [dateWhere_recent_known hmode (Bool.eq_false_iff.mpr hblank) hcol] at h
    obtain hnever | ⟨_, _, hrange, -, hbetween⟩ := recentWhere_eq_some h
    · cases hnever
    · obtain ⟨rfl, rfl, rfl⟩ := DatePredicate.between.inj hbetween
      rw [hrange]
      rfl

theorem reportedRange_of_long_period (hmode : w.mode = .recent) (hcol : r.column w ≠ "")
    (hperiod : w.period = .quarter ∨ w.period = .year) : r.reportedRange w (some a) = {} := by
  rw [reportedRange_recent hmode hcol, reportedRecent]
  obtain hp | hp := hperiod <;> simp only [hp]

theorem dateWhere_ne_never_of_isEmpty (hmode : w.mode = .recent) (hcol : r.column w ≠ "")
    (hblank : a.isEmpty = true) : r.dateWhere w (some a) ≠ some .never := by
  rw [dateWhere_recent_blank hmode hblank, defaultRecent_eq hcol]
  simp

theorem reportedRange_of_never {lo? hi? : Option Date} (hmode : w.mode = .recent)
    (hcol : r.column w ≠ "") (htoday : 1 ≤ r.today.year ∧ r.today.year ≤ 9999)
    (hknows : a.Knows lo? hi?) (hperiod : w.period = .month)
    (h : r.dateWhere w (some a) = some .never) : r.reportedRange w (some a) = {} := by
  have hknown : a.isEmpty = false := Bool.eq_false_iff.mpr fun hblank =>
    dateWhere_ne_never_of_isEmpty hmode hcol hblank h
  rw [dateWhere_recent_known hmode hknown hcol] at h
  have hlate : ∃ lo, a.start? = some lo ∧ r.lastDay a < lo := by
    by_contra hnone
    have hle : ∀ lo, a.start? = some lo → lo ≤ r.lastDay a := fun lo hlo =>
      not_lt.mp fun hlt => hnone ⟨lo, hlo, hlt⟩
    obtain ⟨written, hwhere, -⟩ :=
      recentWhere_eq_between hcol hle (lastDay_fourDigits hknows htoday)
    rw [h] at hwhere
    cases hwhere
  obtain ⟨lo, hlo, hlt⟩ := hlate
  rw [reportedRange_recent hmode hcol, reportedRecent]
  simp only [hperiod, recentRange, monthRange, recentMonths_eq_nil hlo hlt]
  rfl

/-- What is reported for a recent window. Over an availability the bounds of days, weeks and months
are those of the condition, and quarters and years have no range; without one the last days are
reported, as many as the window has periods. -/
theorem reported_recent_window (r : DateRules) (w : Window) (a? : Option Availability)
    (lo? hi? : Option Date) (hmode : w.mode = .recent) (hcol : r.column w ≠ "")
    (htoday : 1 ≤ r.today.year ∧ r.today.year ≤ 9999)
    (hknows : ∀ a, a? = some a → a.Knows lo? hi?) :
    (∀ column start stop, r.dateWhere w a? = some (.between column start stop) →
      (a? = none →
        r.reportedRange w a? =
          ⟨column, (r.yesterday.minusDays ((r.recentUnit w).toNat - 1)).text, stop⟩ ∧
        (w.period = .day → r.reportedRange w a? = ⟨column, start, stop⟩)) ∧
      ∀ a, a? = some a →
        (w.period = .day ∨ w.period = .week ∨ w.period = .month ∧ (a.isEmpty = true →
            0 ≤ (Period.month.windowStart r.yesterday (r.recentUnit w)).year) →
          r.reportedRange w a? = ⟨column, start, stop⟩) ∧
        (w.period = .quarter ∨ w.period = .year → r.reportedRange w a? = {})) ∧
    (r.dateWhere w a? = some .never →
      w.period = .month ∨ w.period = .quarter ∨ w.period = .year → r.reportedRange w a? = {}) := by
  refine ⟨fun column start stop h => ⟨?_, ?_⟩, fun h hperiod => ?_⟩
  · rintro rfl
    exact reportedRange_none hmode hcol h
  · rintro a rfl
    exact ⟨fun hperiod => reportedRange_some hmode hcol (yesterday_fourDigits htoday) hperiod h,
      reportedRange_of_long_period hmode hcol⟩
  · cases a? with
    | none =>
      rw [dateWhere_recent_none hmode, defaultRecent_eq hcol] at h
      cases h
    | some a =>
      obtain hp | hp := hperiod
      · exact reportedRange_of_never hmode hcol htoday (hknows a rfl) hp h
      · exact reportedRange_of_long_period hmode hcol hp

theorem reported_range_of_two_months :
    let r : DateRules := { today := ⟨2024, 3, 15, by decide, by decide, by decide⟩ }
    let w : Window := { mode := .recent, unit := 2, period := .month }
    let a : Availability := { startDate := some "2023-01-01", endDate := some "2024-02-10" }
    let lo : Date := ⟨2023, 1, 1, by decide, by decide, by decide⟩
    let hi : Date := ⟨2024, 2, 10, by decide, by decide, by decide⟩
    w.mode = .recent ∧ r.column w ≠ "" ∧ 1 ≤ r.today.year ∧ r.today.year ≤ 9999 ∧
      (∀ a', some a = some a' → a'.Knows (some lo) (some hi)) ∧
      r.dateWhere w (some a) = some (.between "sys_imp_month" "2024-01-01" "2024-02-10") ∧
      r.reportedRange w (some a) = ⟨"sys_imp_month", "2024-01-01", "2024-02-10"⟩ := by
  intro r w a lo hi
  have hknows : ∀ a', some a = some a' → a'.Knows (some lo) (some hi) := fun a' h =>
    Option.some.inj h ▸
      { start := by cbv
        stop := by cbv
        startYear := fun _ h => Option.some.inj h ▸ ⟨by decide, by decide⟩
        stopYear := fun _ h => Option.some.inj h ▸ ⟨by decide, by decide⟩ }
  have hwhere : r.dateWhere w (some a) =
      some (.between "sys_imp_month" "2024-01-01" "2024-02-10") := by cbv
  refine ⟨rfl, by decide, by decide, by decide, hknows, hwhere, ?_⟩
  have hreported := (reported_recent_window r w (some a) (some lo) (some hi) rfl (by decide)
    (by decide) hknows).1 _ _ _ hwhere
  exact (hreported.2 a rfl).1 (Or.inr (Or.inr ⟨rfl, by decide⟩))

/-- The reported range is not that of the condition for a week without availability, nor for a
quarter with it. -/
theorem reported_range_leaves_window :
    let r : DateRules := { today := ⟨2024, 3, 15, by decide, by decide, by decide⟩ }
    let week : Window := { mode := .recent, unit := 1, period := .week }
    let quarter : Window :=
      { mode := .recent, dateField := some "dt", unit := 1, period := .quarter }
    let a : Availability := { startDate := some "2024-01-01", endDate := some "2024-02-10" }
    (r.dateWhere week none = some (.between "sys_imp_week" "2024-03-11" "2024-03-14") ∧
      r.reportedRange week none = ⟨"sys_imp_week", "2024-03-14", "2024-03-14"⟩) ∧
    (r.dateWhere quarter (some a) = some (.between "dt" "2024-01-01" "2024-02-10") ∧
      r.reportedRange quarter (some a) = {}) := by
  intro r week quarter a
  exact ⟨⟨by decide +kernel, by cbv⟩, by decide +kernel, by cbv⟩

/-- A window of days or weeks in which no day is available selects nothing, but a range is reported
for it, from the known start back to the last day. -/
theorem reportedRange_of_lastDay_lt {lo : Date} (hmode : w.mode = .recent) (hcol : r.column w ≠ "")
    (hknown : a.isEmpty = false) (hlo : a.start? = some lo) (hyear : lo.year ≤ 9999)
    (hlast : (r.lastDay a).FourDigits) (hlate : r.lastDay a < lo)
    (hperiod : w.period = .day ∨ w.period = .week) :
    r.dateWhere w (some a) = some .never ∧
      r.reportedRange w (some a) = ⟨r.column w, lo.text, (r.lastDay a).text⟩ := by
  refine ⟨?_, ?_⟩
  · rw [dateWhere_recent_known hmode hknown hcol]
    exact recentWhere_eq_never hcol hlo hyear hlast hlate
  · rw [reportedRange_recent hmode hcol, reportedRecent]
    obtain hp | hp := hperiod
    all_goals
      simp only [hp, recentRange, recentDay, recentWeek, recentSpan_of_lastDay_lt hlo hlate]
      rfl

example :
    let r : DateRules := { today := ⟨2024, 3, 15, by decide, by decide, by decide⟩ }
    let w : Window := { mode := .recent, unit := 7 }
    let a : Availability := { startDate := some "2024-03-20" }
    r.dateWhere w (some a) = some .never ∧
      r.reportedRange w (some a) = ⟨"sys_imp_date", "2024-03-20", "2024-03-14"⟩ := by
  decide +kernel

end MetricSql.DateRules
