import MetricSql.Proofs.Window.Months
import MetricSql.Proofs.Window.Verified

namespace MetricSql

open Text Date DateSpan

theorem bind_ofText?_of_given {bound : Option String} {d? : Option Date}
    (h : given? bound = d?.map Date.text) : bound.bind Date.ofText? = d? := by
  cases d? with
  | none => exact bind_ofText?_of_not_given h
  | some d =>
    have hbound : bound = some d.text := (Option.filter_eq_some_iff.mp h).1
    rw [hbound, Option.bind_some, ofText?_text]

structure Availability.Knows (a : Availability) (lo? hi? : Option Date) : Prop where
  start : given? a.startDate = lo?.map Date.text
  stop : given? a.endDate = hi?.map Date.text
  startYear : ∀ lo, lo? = some lo → lo.FourDigits
  stopYear : ∀ hi, hi? = some hi → hi.FourDigits

namespace DateRules

variable {r : DateRules} {a : Availability} {w : Window} {lo? hi? : Option Date} {d : Date}

theorem yesterday_fourDigits (h : 1 ≤ r.today.year ∧ r.today.year ≤ 9999) :
    r.yesterday.FourDigits := by
  have htoday := yearStart_le_iff.mpr h.1
  have hnumber := dayNumber_minusDays r.today 1
  have hyear : 0 ≤ r.yesterday.year := by
    rw [← yearStart_le_iff]
    change (r.yesterday).dayNumber = _ at hnumber
    rw [hnumber]
    simp only [Calendar.daysBeforeYear] at htoday ⊢
    omega
  exact ⟨hyear, (year_le_of_le (r.today.minusDays_le 1)).trans h.2⟩

theorem lastDay_eq (h : a.Knows lo? hi?) : r.lastDay a = hi?.getD r.yesterday := by
  rw [lastDay, Availability.stop?, bind_ofText?_of_given h.stop]

theorem lastDay_fourDigits (h : a.Knows lo? hi?)
    (htoday : 1 ≤ r.today.year ∧ r.today.year ≤ 9999) : (r.lastDay a).FourDigits := by
  rw [lastDay_eq h]
  cases hi? with
  | none => exact yesterday_fourDigits htoday
  | some hi => exact h.stopYear hi rfl

/-- A day from which the window is written down. It stands for `first` in the order of texts, among
which those with a sign are not in the order of the days. -/
structure WrittenFor (first written : Date) (stop : Date) : Prop where
  le : first ≤ written
  le_stop : written ≤ stop
  text_le : written.text ≤ first.text

theorem recentSpan_le (h : ∀ lo, a.start? = some lo → lo ≤ r.lastDay a) (p : Period) :
    (r.recentSpan a w p).1 ≤ r.lastDay a := by
  obtain hle | hlo := (r.recentSpan_bounds a w p).first
  · exact hle
  · exact h _ hlo

theorem monthRange_eq_some (h : ∀ lo, a.start? = some lo → lo ≤ r.lastDay a)
    (hlast : (r.lastDay a).FourDigits) :
    ∃ written, r.monthRange a w = some (written.text, (r.lastDay a).text) ∧
      WrittenFor (r.recentSpan a w .month).1 written (r.lastDay a) := by
  have htiles := recentMonths_tiles (w := w) h
  have hnonempty := Int.lt_add_one_of_le (recentSpan_le (w := w) h .month)
  obtain ⟨s, hs, hfirst⟩ := htiles.exists_first hnonempty
  obtain ⟨e, he, hend⟩ := htiles.exists_last hnonempty
  obtain ⟨start, stop, hrange, hbounds⟩ := exists_monthRange (List.ne_nil_of_mem hs)
  obtain ⟨s', hs', rfl⟩ := hbounds.start_mem
  obtain ⟨e', he', rfl⟩ := hbounds.stop_mem
  have hwithin := recentMonths_within s' hs'
  have hlatest : e'.2.text = (r.lastDay a).text := by
    have heq : e.2 = r.lastDay a := eq_of_dayNumber_eq (add_right_cancel hend)
    refine String.le_antisymm (text_le_text (recentMonths_within e' he').stop hlast) ?_
    rw [← heq]
    exact hbounds.le_stop e he
  refine ⟨s'.1, ?_, (htiles.bounds s' hs').1, hwithin.ordered.trans hwithin.stop, ?_⟩
  · rw [hrange, hlatest]
  · rw [← eq_of_dayNumber_eq hfirst]
    exact hbounds.start_le s hs

theorem recentRange_eq_some_of_le (h : ∀ lo, a.start? = some lo → lo ≤ r.lastDay a)
    (hlast : (r.lastDay a).FourDigits) :
    ∃ written, r.recentRange a w = some (written.text, (r.lastDay a).text) ∧
      WrittenFor (r.recentSpan a w w.period).1 written (r.lastDay a) := by
  have hspan : ∀ p, WrittenFor (r.recentSpan a w p).1 (r.recentSpan a w p).1 (r.lastDay a) :=
    fun p => ⟨le_refl _, recentSpan_le h p, String.le_refl _⟩
  cases hp : w.period with
  | month =>
    obtain ⟨written, hrange, hwritten⟩ := monthRange_eq_some (w := w) h hlast
    exact ⟨written, by simp only [recentRange, hp, hrange], hwritten⟩
  | day | week | quarter | year => exact ⟨_, by simp only [recentRange, hp]; rfl, hspan _⟩

theorem recentWhere_eq_between (hcol : r.column w ≠ "")
    (h : ∀ lo, a.start? = some lo → lo ≤ r.lastDay a) (hlast : (r.lastDay a).FourDigits) :
    ∃ written, r.recentWhere a w = some (.between (r.column w) written.text (r.lastDay a).text) ∧
      WrittenFor (r.recentSpan a w w.period).1 written (r.lastDay a) := by
  obtain ⟨written, hrange, hwritten⟩ := recentRange_eq_some_of_le (w := w) h hlast
  have hordered := text_le_text hwritten.le_stop hlast
  exact ⟨written, by simp only [recentWhere, hcol, hrange, hordered, if_true, if_false], hwritten⟩

theorem recentSpan_of_lastDay_lt {lo : Date} (hlo : a.start? = some lo) (h : r.lastDay a < lo)
    (p : Period) : r.recentSpan a w p = (lo, r.lastDay a) := by
  rw [recentSpan, hlo, clampTo_eq_bound ((p.windowStart_le _ _).trans (le_of_lt h))]

theorem recentWhere_eq_never (hcol : r.column w ≠ "") {lo : Date} (hlo : a.start? = some lo)
    (hyear : lo.year ≤ 9999) (hlast : (r.lastDay a).FourDigits) (h : r.lastDay a < lo) :
    r.recentWhere a w = some .never := by
  have hreversed : ¬lo.text ≤ (r.lastDay a).text := by
    rw [text_le_text_iff hyear hlast]
    exact not_le.mpr h
  have hnever : ∀ p, r.recentRange a w = some (r.recentSpan a w p).texts →
      r.recentWhere a w = some .never := fun p hrange => by
    rw [recentSpan_of_lastDay_lt hlo h, DateSpan.texts] at hrange
    simp only [recentWhere, hcol, hrange, hreversed, if_false]
  cases hp : w.period with
  | month =>
    have hrange : r.recentRange a w = none := by
      simp only [recentRange, hp, monthRange, recentMonths_eq_nil hlo h]
      rfl
    simp only [recentWhere, hcol, hrange, if_false]
  | day | week | quarter | year => exact hnever _ (by simp only [recentRange, hp]; rfl)

theorem WrittenFor.text_le_iff {first written stop : Date} (h : WrittenFor first written stop)
    (hstop : stop.FourDigits) (hd : d.FourDigits) : written.text ≤ d.text ↔ first ≤ d := by
  constructor
  · intro hle
    have hyear := (year_le_of_le h.le_stop).trans hstop.2
    exact h.le.trans ((text_le_text_iff hyear hd).mp hle)
  · intro hle
    exact String.le_trans h.text_le (text_le_text hle hd)

theorem WrittenFor.eq {first written stop : Date} (h : WrittenFor first written stop)
    (hstop : stop.FourDigits) (hfirst : 0 ≤ first.year) : written = first := by
  have hfour : first.FourDigits :=
    ⟨hfirst, (year_le_of_le (h.le.trans h.le_stop)).trans hstop.2⟩
  have hyear := (year_le_of_le h.le_stop).trans hstop.2
  exact le_antisymm ((text_le_text_iff hyear hfour).mp h.text_le) h.le

/-- A recent window within the available days selects the days from the first one of the period that
lies `n - 1` periods before the one with the last available day, but not those before the known
start or after that last day. It selects none when the known start comes after the last day. -/
theorem recent_window_selects (r : DateRules) (w : Window) (a : Availability)
    (lo? hi? : Option Date) (hmode : w.mode = .recent ∨ w.mode = .available) (hcol : r.column w ≠ "")
    (htoday : 1 ≤ r.today.year ∧ r.today.year ≤ 9999) (hknown : a.Knows lo? hi?) :
    let col := r.column w
    let stop := hi?.getD r.yesterday
    ∃ p, r.restrictedWhere w a = some p ∧
      (p.text = "1 = 0" ∨ ∃ start : Date, start ≤ stop ∧
        p.text = col ++ " >= " ++ literal start.text ++ " and " ++ col ++ " <= " ++
          literal stop.text) ∧
      (∀ row (d : Date), d.FourDigits → row col = d.text →
        (DatePredicate.Selects col p.text row ↔
          w.period.firstDay (w.period.index stop - ((r.recentUnit w).toNat - 1 : Nat)) ≤
            d.dayNumber ∧
          (∀ lo, lo? = some lo → lo ≤ d) ∧ d ≤ stop)) ∧
      (p.text = "1 = 0" ↔ ∃ lo, lo? = some lo ∧ stop < lo) := by
  intro col stop
  have hrecent : r.restrictedWhere w a = r.recentWhere a w := by
    obtain hm | hm := hmode
    · simp only [restrictedWhere, hcol, hm, if_false]
    · simp only [restrictedWhere, hcol, hm, if_false]
  have hlast := lastDay_fourDigits hknown htoday
  have hstop : r.lastDay a = stop := lastDay_eq hknown
  have hstart : a.start? = lo? := bind_ofText?_of_given hknown.start
  rw [hrecent, ← hstop]
  by_cases hlate : ∃ lo, lo? = some lo ∧ r.lastDay a < lo
  · obtain ⟨lo, hlo, hlt⟩ := hlate
    have hyear := (hknown.startYear lo hlo).2
    have hwhere := recentWhere_eq_never hcol (hstart.trans hlo) hyear hlast hlt
    refine ⟨.never, hwhere, .inl rfl, ?_, iff_of_true rfl ⟨lo, hlo, hlt⟩⟩
    intro row d hd hrow
    rw [(restricted_of_recentWhere hwhere).isAbout.selects_iff]
    refine iff_of_false id ?_
    rintro ⟨-, hbound, hle⟩
    exact absurd (hbound lo hlo) (not_le.mpr (lt_of_le_of_lt hle hlt))
  · have hle : ∀ lo, a.start? = some lo → lo ≤ r.lastDay a := fun lo hlo =>
      not_lt.mp fun hlt => hlate ⟨lo, hstart.symm.trans hlo, hlt⟩
    obtain ⟨written, hwhere, hwritten⟩ := recentWhere_eq_between hcol hle hlast
    refine ⟨_, hwhere, .inr ⟨written, hwritten.le_stop, rfl⟩, ?_, ?_⟩
    · intro row d hd hrow
      have hfirst := hwritten.text_le_iff hlast hd
      rw [recentSpan, clampTo_le_iff, Period.windowStart_le_iff, hstart] at hfirst
      rw [(restricted_of_recentWhere hwhere).isAbout.selects_iff, DatePredicate.Holds, hrow, hfirst,
        text_le_text_iff hd.2 hlast, and_assoc]
    · rw [DatePredicate.text_eq_never_iff]
      exact iff_of_false (by simp) hlate

theorem recent_window_selects_quarters :
    let r : DateRules := { today := ⟨2024, 3, 15, by decide, by decide, by decide⟩ }
    let w : Window := { mode := .available, dateField := some "dt", unit := 3, period := .quarter }
    let lo : Date := ⟨2023, 8, 20, by decide, by decide, by decide⟩
    let a : Availability := { startDate := some "2023-08-20", endDate := some "" }
    w.mode = .available ∧ r.column w = "dt" ∧ 1 ≤ r.today.year ∧ r.today.year ≤ 9999 ∧
      a.Knows (some lo) none ∧ ∃ p, r.restrictedWhere w a = some p ∧
        p.text = "dt >= '2023-08-20' and dt <= '2024-03-14'" ∧
        ∀ row (d : Date), d.FourDigits → row "dt" = d.text →
          (DatePredicate.Selects "dt" p.text row ↔
            Period.quarter.firstDay (Period.quarter.index r.yesterday -
              ((r.recentUnit w).toNat - 1 : Nat)) ≤ d.dayNumber ∧
            (∀ lo', some lo = some lo' → lo' ≤ d) ∧ d ≤ r.yesterday) := by
  intro r w lo a
  have hknown : a.Knows (some lo) none :=
    { start := by cbv
      stop := by decide
      startYear := fun _ h => Option.some.inj h ▸ ⟨by decide, by decide⟩
      stopYear := fun _ h => nomatch h }
  have hwhere : r.restrictedWhere w a = some (.between "dt" "2023-08-20" "2024-03-14") := by
    decide +kernel
  obtain ⟨p, hp, -, hselects, -⟩ :=
    recent_window_selects r w a (some lo) none (Or.inr rfl) (by decide) (by decide) hknown
  obtain rfl := Option.some.inj (hwhere.symm.trans hp)
  exact ⟨rfl, by decide, by decide, by decide, hknown, _, hp, by decide +kernel, hselects⟩

end DateRules

end MetricSql
