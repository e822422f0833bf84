import MetricSql.Proofs.Calendar.YearOrder
import MetricSql.Proofs.Window.Partition
import MetricSql.Window.Range

namespace MetricSql.DateRules

open Text Date

variable {r : DateRules} {a : Availability} {w : Window} {d : Date} {s t : DateSpan} {y : Int}

def firstDay (r : DateRules) (a : Availability) (w : Window) : Date := (r.recentSpan a w .month).1

theorem exists_mem_recentMonths_iff_between :
    (∃ s ∈ r.recentMonths a w, s.1 ≤ d ∧ d ≤ s.2) ↔ r.firstDay a w ≤ d ∧ d ≤ r.lastDay a := by
  rw [exists_mem_recentMonths_iff, firstDay, recentSpan, clampTo_le_iff, and_assoc]

theorem recentMonths_between (hs : s ∈ r.recentMonths a w) :
    r.firstDay a w ≤ s.1 ∧ s.2 ≤ r.lastDay a :=
  have hordered := (recentMonths_within s hs).ordered
  ⟨(exists_mem_recentMonths_iff_between.mp ⟨s, hs, le_rfl, hordered⟩).1,
    (exists_mem_recentMonths_iff_between.mp ⟨s, hs, hordered, le_rfl⟩).2⟩

theorem exists_mem_recentMonths (hfirst : r.firstDay a w ≤ d) (hlast : d ≤ r.lastDay a) :
    ∃ s ∈ r.recentMonths a w, s.1 ≤ d ∧ d ≤ s.2 ∧ s.1.year = d.year ∧ s.2.year = d.year := by
  obtain ⟨s, hs, hle, hge⟩ := exists_mem_recentMonths_iff_between.mpr ⟨hfirst, hlast⟩
  have hyear := (eq_of_monthNumber_eq (recentMonths_sameMonth s hs)).1
  have hd : d.year = s.1.year :=
    le_antisymm (hyear ▸ year_le_of_le hge) (year_le_of_le hle)
  exact ⟨s, hs, hle, hge, hd.symm, hyear ▸ hd.symm⟩

theorem fourDigits_of_mem (hlast : (r.lastDay a).FourDigits) (hs : s ∈ r.recentMonths a w)
    (hyear : 0 ≤ s.1.year) : s.1.FourDigits :=
  have hle := (recentMonths_within s hs).ordered.trans (recentMonths_between hs).2
  ⟨hyear, (year_le_of_le hle).trans hlast.2⟩

theorem firstDay_le_lastDay (h : r.recentMonths a w ≠ []) : r.firstDay a w ≤ r.lastDay a := by
  obtain ⟨s, hs⟩ := List.exists_mem_of_ne_nil _ h
  obtain ⟨hfirst, hlast⟩ := recentMonths_between hs
  exact (hfirst.trans (recentMonths_within s hs).ordered).trans hlast

theorem exists_mem_recentMonths_of_year (h : r.recentMonths a w ≠ [])
    (hfirst : (r.firstDay a w).year ≤ y) (hlast : y ≤ (r.lastDay a).year) :
    ∃ s ∈ r.recentMonths a w, s.1.year = y ∧ s.2.year = y := by
  obtain rfl | hlt := Int.le_iff_eq_or_lt.mp hfirst
  · obtain ⟨s, hs, -, -, hyears⟩ := exists_mem_recentMonths le_rfl (firstDay_le_lastDay h)
    exact ⟨s, hs, hyears⟩
  · obtain ⟨d, hd⟩ := make?_isSome (m := 1) (k := 1)
      ⟨(r.firstDay a w).year_range.1.trans hfirst, hlast.trans (r.lastDay a).year_range.2⟩
      ⟨le_rfl, by decide⟩ ⟨le_rfl, Nat.le_trans (by decide) (Calendar.daysInMonth_pos _ _)⟩
    obtain ⟨rfl, -⟩ := make?_eq_some hd
    have hle := le_of_make? hlast
    rw [hd] at hle
    obtain ⟨s, hs, -, -, hyears⟩ := exists_mem_recentMonths (le_of_lt (lt_of_year_lt hlt)) hle
    exact ⟨s, hs, hyears⟩

theorem isLeast_firstDay (h : r.recentMonths a w ≠ []) :
    IsLeast {d | ∃ s ∈ r.recentMonths a w, s.1 = d} (r.firstDay a w) := by
  obtain ⟨s, hs, hle, -⟩ := exists_mem_recentMonths le_rfl (firstDay_le_lastDay h)
  refine ⟨⟨s, hs, le_antisymm hle (recentMonths_between hs).1⟩, ?_⟩
  rintro d ⟨t, ht, rfl⟩
  exact (recentMonths_between ht).1

theorem isGreatest_lastDay (h : r.recentMonths a w ≠ []) :
    IsGreatest {d | ∃ s ∈ r.recentMonths a w, s.2 = d} (r.lastDay a) := by
  obtain ⟨s, hs, -, hge, -⟩ := exists_mem_recentMonths (firstDay_le_lastDay h) le_rfl
  refine ⟨⟨s, hs, le_antisymm (recentMonths_between hs).2 hge⟩, ?_⟩
  rintro d ⟨t, ht, rfl⟩
  exact (recentMonths_between ht).2

namespace MonthBounds

variable {start stop : Date}

theorem ne_nil (h : r.MonthBounds a w start stop) : r.recentMonths a w ≠ [] := by
  obtain ⟨s, hs, -⟩ := h.start_mem
  exact List.ne_nil_of_mem hs

theorem start_eq_iff (h : r.MonthBounds a w start stop)
    (hd : ∃ s ∈ r.recentMonths a w, s.1 = d) :
    start = d ↔ ∀ s ∈ r.recentMonths a w, d.text ≤ s.1.text := by
  constructor
  · rintro rfl
    exact h.start_le
  · intro hle
    obtain ⟨s, hs, rfl⟩ := hd
    obtain ⟨t, ht, rfl⟩ := h.start_mem
    exact text_injective (String.le_antisymm (h.start_le s hs) (hle t ht))

theorem stop_eq_iff (h : r.MonthBounds a w start stop)
    (hd : ∃ s ∈ r.recentMonths a w, s.2 = d) :
    stop = d ↔ ∀ s ∈ r.recentMonths a w, s.2.text ≤ d.text := by
  constructor
  · rintro rfl
    exact h.le_stop
  · intro hle
    obtain ⟨s, hs, rfl⟩ := hd
    obtain ⟨t, ht, rfl⟩ := h.stop_mem
    exact text_injective (String.le_antisymm (hle t ht) (h.le_stop s hs))

/-- The bound is the earliest start exactly if the text of its year comes before those of the later
years. -/
theorem start_eq_firstDay_iff (h : r.MonthBounds a w start stop) :
    start = r.firstDay a w ↔ ∀ y, (r.firstDay a w).year < y → y ≤ (r.lastDay a).year →
      yearText (r.firstDay a w).year < yearText y := by
  rw [h.start_eq_iff (isLeast_firstDay h.ne_nil).1]
  constructor
  · intro hle y hlt hlast
    obtain ⟨s, hs, rfl, -⟩ := exists_mem_recentMonths_of_year h.ne_nil hlt.le hlast
    have hnot := String.not_lt.mpr (hle s hs)
    rw [text_lt_text_iff_yearText, not_or] at hnot
    exact lt_of_le_of_ne (not_lt.mp hnot.1) fun heq => hlt.ne (yearText_injective heq)
  · intro hyears s hs
    obtain ⟨hfirst, hlast⟩ := recentMonths_between hs
    obtain heq | hlt := Int.le_iff_eq_or_lt.mp (year_le_of_le hfirst)
    · exact text_le_text_of_year_eq heq hfirst
    · have hyear := year_le_of_le ((recentMonths_within s hs).ordered.trans hlast)
      exact ordered_of_lt (text_lt_of_yearText_lt (hyears _ hlt hyear))

theorem stop_eq_lastDay_iff (h : r.MonthBounds a w start stop) :
    stop = r.lastDay a ↔ ∀ y, (r.firstDay a w).year ≤ y → y < (r.lastDay a).year →
      yearText y < yearText (r.lastDay a).year := by
  rw [h.stop_eq_iff (isGreatest_lastDay h.ne_nil).1]
  constructor
  · intro hle y hfirst hlt
    obtain ⟨s, hs, -, rfl⟩ := exists_mem_recentMonths_of_year h.ne_nil hfirst hlt.le
    have hnot := String.not_lt.mpr (hle s hs)
    rw [text_lt_text_iff_yearText, not_or] at hnot
    exact lt_of_le_of_ne (not_lt.mp hnot.1) fun heq => hlt.ne (yearText_injective heq)
  · intro hyears s hs
    obtain ⟨hfirst, hlast⟩ := recentMonths_between hs
    obtain heq | hlt := Int.le_iff_eq_or_lt.mp (year_le_of_le hlast)
    · exact text_le_text_of_year_eq heq hlast
    · have hyear := year_le_of_le (hfirst.trans (recentMonths_within s hs).ordered)
      exact ordered_of_lt (text_lt_of_yearText_lt (hyears _ hyear hlt))

theorem stop_eq_of_fourDigits (h : r.MonthBounds a w start stop) (hlast : (r.lastDay a).FourDigits) :
    stop = r.lastDay a := by
  rw [h.stop_eq_iff (isGreatest_lastDay h.ne_nil).1]
  exact fun s hs => text_le_text (recentMonths_between hs).2 hlast

theorem start_eq_of_fourDigits (h : r.MonthBounds a w start stop)
    (hlast : (r.lastDay a).FourDigits) (hfirst : -1 ≤ (r.firstDay a w).year) :
    start = r.firstDay a w := by
  rw [h.start_eq_iff (isLeast_firstDay h.ne_nil).1]
  intro s hs
  have hle := (recentMonths_between hs).1
  by_cases hyear : 0 ≤ s.1.year
  · exact text_le_text hle (fourDigits_of_mem hlast hs hyear)
  · have hyears := year_le_of_le hle
    exact text_le_text_of_year_eq (by omega) hle

/-- Of the starts before year 0, the one in year -1 has the least text. -/
theorem start_text_of_fourDigits (h : r.MonthBounds a w start stop)
    (hlast : (r.lastDay a).FourDigits) (hfirst : (r.firstDay a w).year < -1) :
    start.text = "-0001-01-01" := by
  let d : Date := ⟨-1, 1, 1, by decide, by decide, by decide⟩
  have hdlast : d ≤ r.lastDay a := le_of_lt (lt_of_year_lt (Int.lt_of_lt_of_le (by decide) hlast.1))
  obtain ⟨s, hs, hle, hge, -⟩ := exists_mem_recentMonths (le_of_lt (lt_of_year_lt hfirst)) hdlast
  have hmonth : d.monthNumber ≤ s.1.monthNumber :=
    (monthNumber_le_of_le hge).trans (recentMonths_sameMonth s hs).ge
  have hd : s.1 = d := le_antisymm hle (le_of_monthNumber_le rfl hmonth)
  have hstart : start = d := by
    rw [h.start_eq_iff ⟨s, hs, hd⟩]
    intro t ht
    obtain hyear | hyear | hyear := Int.lt_trichotomy t.1.year (-1)
    · exact ordered_of_lt (text_lt_of_yearText_lt (yearText_neg_one_lt hyear))
    · refine text_le_text_of_year_eq hyear.symm (le_of_monthNumber_le rfl ?_)
      have hpos := t.1.month_range.1
      simp only [monthNumber, hyear, d]
      omega
    · exact text_le_text (le_of_lt (lt_of_year_lt hyear))
        (fourDigits_of_mem hlast ht (by omega))
  rw [hstart]
  decide +kernel

theorem text_le_text (h : r.MonthBounds a w start stop) : start.text ≤ stop.text := by
  obtain ⟨s, hs, rfl⟩ := h.start_mem
  have hyear := (eq_of_monthNumber_eq (recentMonths_sameMonth s hs)).1
  exact String.le_trans (text_le_text_of_year_eq hyear (recentMonths_within s hs).ordered)
    (h.le_stop s hs)

end MonthBounds

/-- A window of months spans its months. Its bounds are written as the least text of the starts and
the greatest text of the ends, and these are the first and the last day exactly if the years between
are in the order of their texts. Up to a last day with four digits, the start is never written with
a year before -1. -/
theorem month_range_in_order (r : DateRules) (a : Availability) (w : Window)
    (hperiod : w.period = .month) (hmonths : r.recentMonths a w ≠ []) :
    IsLeast {d | ∃ s ∈ r.recentMonths a w, s.1 = d} (r.firstDay a w) ∧
      IsGreatest {d | ∃ s ∈ r.recentMonths a w, s.2 = d} (r.lastDay a) ∧
      (a.start? = none →
        r.firstDay a w = Period.month.windowStart (r.lastDay a) (r.recentUnit w)) ∧
      ∃ start stop : Date,
        r.recentRange a w = some (start.text, stop.text) ∧
        (r.column w ≠ "" →
          r.recentWhere a w = some (.between (r.column w) start.text stop.text)) ∧
        (∀ column, r.reportedRecent w column (some a) = ⟨column, start.text, stop.text⟩) ∧
        (start = r.firstDay a w ↔ ∀ y, (r.firstDay a w).year < y → y ≤ (r.lastDay a).year →
          yearText (r.firstDay a w).year < yearText y) ∧
        (stop = r.lastDay a ↔ ∀ y, (r.firstDay a w).year ≤ y → y < (r.lastDay a).year →
          yearText y < yearText (r.lastDay a).year) ∧
        ((r.lastDay a).FourDigits → stop = r.lastDay a ∧
          (-1 ≤ (r.firstDay a w).year → start = r.firstDay a w) ∧
          ((r.firstDay a w).year < -1 → start.text = "-0001-01-01")) := by
  obtain ⟨start, stop, hrange, hbounds⟩ := exists_monthRange hmonths
  have hrecent : r.recentRange a w = some (start.text, stop.text) := by
    simp only [recentRange, hperiod, hrange]
  refine ⟨isLeast_firstDay hmonths, isGreatest_lastDay hmonths, fun hnone => ?_, start, stop,
    hrecent, fun hcol => ?_, fun column => ?_, hbounds.start_eq_firstDay_iff,
    hbounds.stop_eq_lastDay_iff, fun hlast => ⟨hbounds.stop_eq_of_fourDigits hlast,
      hbounds.start_eq_of_fourDigits hlast, hbounds.start_text_of_fourDigits hlast⟩⟩
  · rw [firstDay, recentSpan, hnone]
    rfl
  · simp only [recentWhere, hcol, hrecent, hbounds.text_le_text, if_true, if_false]
  · simp only [reportedRecent, hperiod, hrecent, EffectiveRange.ofBounds]

theorem month_range_in_order_winter :
    let r : DateRules := { today := ⟨2024, 3, 15, by decide, by decide, by decide⟩ }
    let w : Window := { mode := .recent, unit := 3, period := .month }
    let a : Availability := { endDate := some "2024-02-10" }
    w.period = .month ∧ r.recentMonths a w ≠ [] ∧ ∃ start stop : Date,
      r.recentRange a w = some (start.text, stop.text) ∧
        start = Period.month.windowStart (r.lastDay a) (r.recentUnit w) ∧ stop = r.lastDay a := by
  intro r w a
  have hmonths : r.recentMonths a w ≠ [] := by decide +kernel
  have hlast : (r.lastDay a).FourDigits := by
    unfold FourDigits
    decide +kernel
  have hfirst : -1 ≤ (r.firstDay a w).year := by decide +kernel
  obtain ⟨-, -, hwindow, start, stop, hrange, -, -, -, -, hfour⟩ :=
    month_range_in_order r a w rfl hmonths
  obtain ⟨hstop, hstart, -⟩ := hfour hlast
  exact ⟨rfl, hmonths, start, stop, hrange, (hstart hfirst).trans (hwindow rfl), hstop⟩

/-- The last month of a window has a start in year -1, and its first one in year -2. -/
theorem month_range_out_of_order :
    let r : DateRules := { today := ⟨2024, 3, 15, by decide, by decide, by decide⟩ }
    let w : Window := { mode := .recent, dateField := some "dt", unit := 15, period := .month }
    let a : Availability := { endDate := some "0000-02-10" }
    r.recentWhere a w = some (.between "dt" "-0001-01-01" "0000-02-10") ∧
      (Period.month.windowStart (r.lastDay a) (r.recentUnit w)).text = "-0002-12-01" ∧
      ("-0002-12-01", "-0002-12-31") ∈ (r.recentMonths a w).map DateSpan.texts := by
  decide +kernel

end MetricSql.DateRules
