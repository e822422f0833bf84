import MetricSql.Proofs.Query.Narrowing

namespace MetricSql

variable {r r' : DateRules} {w : Window} {a : Availability} {a? : Option Availability} {e : Date}

def Window.Dated (w : Window) : Prop :=
  w.mode = .list ∧ w.dateList ≠ [] ∨ w.mode = .between ∧ w.startDate ≠ none ∧ w.endDate ≠ none

theorem Window.Dated.not_namesNoDays (h : w.Dated) : ¬w.NamesNoDays := by
  rintro (⟨hlist, hnil⟩ | ⟨hbetween, hopen⟩)
  · obtain ⟨-, hdates⟩ | ⟨hmode, -⟩ := h
    · exact hdates hnil
    · cases hlist.symm.trans hmode
  · obtain ⟨hmode, -⟩ | ⟨-, hstart, hstop⟩ := h
    · cases hbetween.symm.trans hmode
    · exact hopen.elim hstart hstop

theorem isEmpty_eq_false_of_stop? (h : a.stop? = some e) : a.isEmpty = false := by
  rw [← Bool.not_eq_true]
  intro hempty
  simp only [Availability.isEmpty, Bool.and_eq_true, Option.isNone_iff_eq_none] at hempty
  have hnone : a.stop? = none := bind_ofText?_of_not_given hempty.2
  cases hnone.symm.trans h

namespace DateRules

theorem lastDay_of_stop? (h : a.stop? = some e) (r : DateRules) : r.lastDay a = e := by
  rw [lastDay, h, Option.getD_some]

section

variable (hcolumns : r.columns = r'.columns)
include hcolumns

theorem restrictedWhere_congr (hday : r.lastDay a = r'.lastDay a) :
    r.restrictedWhere w a = r'.restrictedWhere w a := by
  simp only [restrictedWhere, column_congr hcolumns, recentWhere_congr hcolumns rfl hday]

theorem restrictedWhere_of_dated (h : w.Dated) (a : Availability) :
    r.restrictedWhere w a = r'.restrictedWhere w a := by
  have hcol := column_congr hcolumns w
  obtain ⟨hmode, -⟩ | ⟨hmode, hstart, hstop⟩ := h
  · simp only [restrictedWhere, hmode, hcol]
  · obtain ⟨start, hstart⟩ := Option.ne_none_iff_exists'.mp hstart
    obtain ⟨stop, hstop⟩ := Option.ne_none_iff_exists'.mp hstop
    obtain ⟨first, hfirst⟩ := exists_laterBound start (given? a.startDate)
    obtain ⟨last, hlast⟩ := exists_earlierBound stop (given? a.endDate)
    simp only [restrictedWhere, hmode, hcol, hstart, hstop, hfirst, hlast]

theorem dateWhere_of_dated (h : w.Dated) (a? : Option Availability) :
    r.dateWhere w a? = r'.dateWhere w a? := by
  obtain hnothing | ⟨a, rfl, hknown⟩ := nothingKnown_or a?
  · have hcol := column_congr hcolumns w
    rw [dateWhere_of_nothingKnown hnothing, dateWhere_of_nothingKnown hnothing]
    obtain ⟨hmode, -⟩ | ⟨hmode, -⟩ := h
    · simp only [hmode, listWhere, hcol]
    · simp only [hmode, betweenWhere, hcol]
  · rw [dateWhere_of_known hknown, dateWhere_of_known hknown]
    exact restrictedWhere_of_dated hcolumns h a

theorem dateWhere_of_stop? (h : a.stop? = some e) :
    r.dateWhere w (some a) = r'.dateWhere w (some a) := by
  have hknown := isEmpty_eq_false_of_stop? h
  rw [dateWhere_of_known hknown, dateWhere_of_known hknown]
  exact restrictedWhere_congr hcolumns ((lastDay_of_stop? h r).trans (lastDay_of_stop? h r').symm)

theorem reportedRange_of_dated (h : w.Dated) (a? : Option Availability) :
    r.reportedRange w a? = r'.reportedRange w a? := by
  have hcol := column_congr hcolumns w
  obtain ⟨hmode, -⟩ | ⟨hmode, -⟩ := h <;> simp only [reportedRange, hmode, hcol]

theorem reportedRange_of_stop? (h : a.stop? = some e) :
    r.reportedRange w (some a) = r'.reportedRange w (some a) := by
  have hday := (lastDay_of_stop? h r).trans (lastDay_of_stop? h r').symm
  simp only [reportedRange, reportedRecent, column_congr hcolumns,
    recentRange_congr hcolumns rfl hday]

end

end DateRules

namespace Query

open DateRules

/-- The days of a query are fixed: it has no window, its window has days of its own, or the last
available day is known. -/
def Pinned (q : Query) (a? : Option Availability) : Prop :=
  q.window = none ∨ (∃ w, q.window = some w ∧ w.Dated) ∨ ∃ a e, a? = some a ∧ a.stop? = some e

variable {q : Query}

theorem Pinned.window_cases (h : q.Pinned a?) (hw : q.window = some w) :
    w.Dated ∨ ∃ a e, a? = some a ∧ a.stop? = some e := by
  obtain hnone | ⟨w', hw', hdated⟩ | hstop := h
  · cases hnone.symm.trans hw
  · obtain rfl := Option.some.inj (hw'.symm.trans hw)
    exact .inl hdated
  · exact .inr hstop

theorem Pinned.column_eq_empty (h : q.Pinned a?) (hw : q.window = some w)
    (hwhere : r.dateWhere w a? = none) : r.column w = "" := by
  by_contra hcol
  obtain ⟨hnothing, hnames⟩ := (dateWhere_eq_none_iff a? hcol).mp hwhere
  obtain hdated | ⟨a, e, rfl, hstop⟩ := h.window_cases hw
  · exact hdated.not_namesNoDays hnames
  · cases (hnothing a rfl).symm.trans (isEmpty_eq_false_of_stop? hstop)

theorem Pinned.dateWhere_congr (h : q.Pinned a?) (hw : q.window = some w)
    (hcolumns : r.columns = r'.columns) : r.dateWhere w a? = r'.dateWhere w a? := by
  obtain hdated | ⟨a, e, rfl, hstop⟩ := h.window_cases hw
  · exact dateWhere_of_dated hcolumns hdated a?
  · exact dateWhere_of_stop? hcolumns hstop

theorem Pinned.reportedRange_congr (h : q.Pinned a?) (hw : q.window = some w)
    (hcolumns : r.columns = r'.columns) : r.reportedRange w a? = r'.reportedRange w a? := by
  obtain hdated | ⟨a, e, rfl, hstop⟩ := h.window_cases hw
  · exact reportedRange_of_dated hcolumns hdated a?
  · exact reportedRange_of_stop? hcolumns hstop

theorem Pinned.whereText_congr (h : q.Pinned a?) (hcolumns : r.columns = r'.columns)
    (filterText : List Filter → String) :
    q.whereText r a? filterText = q.whereText r' a? filterText := by
  cases hw : q.window with
  | none => simp only [whereText, mergeWhere, dateText, hw, Option.bind_none]
  | some w =>
    have hwhere := h.dateWhere_congr hw hcolumns
    simp only [whereText, mergeWhere, dateText_eq hw, hw, Option.bind_some, hwhere]
    cases hp : r'.dateWhere w a? with
    | some p => simp only [DatePredicate.optionText_some, p.text_ne_empty, if_false]
    | none =>
      have hcol := h.column_eq_empty hw hp
      have hcol' := (column_congr hcolumns w).trans hcol
      simp only [defaultRecent, hcol, hcol', if_true]

/-- A query whose days are fixed gives the same condition and the same range on every day, whatever
its filters, its period and the first available day. -/
theorem pinned_ignores_today (q : Query) (columns : DateColumns) (a? : Option Availability)
    (filterText : List Filter → String) (today today' : Date) (h : q.Pinned a?) :
    q.whereText ⟨columns, today⟩ a? filterText = q.whereText ⟨columns, today'⟩ a? filterText ∧
      q.effectiveRange ⟨columns, today⟩ a? = q.effectiveRange ⟨columns, today'⟩ a? := by
  have hcolumns : (⟨columns, today⟩ : DateRules).columns =
      (⟨columns, today'⟩ : DateRules).columns := rfl
  refine ⟨h.whereText_congr hcolumns filterText, ?_⟩
  unfold effectiveRange
  cases hw : q.window with
  | none => rfl
  | some w => exact h.reportedRange_congr hw hcolumns

theorem pinned_ignores_today_months :
    let q : Query := { window := some { mode := .recent, unit := 2, period := .month } }
    let a : Availability := { startDate := some "soon", endDate := some " 2024-02-10" }
    let today : Date := ⟨2024, 3, 15, by decide, by decide, by decide⟩
    let later : Date := ⟨2025, 3, 15, by decide, by decide, by decide⟩
    q.Pinned (some a) ∧
      q.whereText ⟨{}, today⟩ (some a) Filter.joinText =
        q.whereText ⟨{}, later⟩ (some a) Filter.joinText ∧
      q.effectiveRange ⟨{}, today⟩ (some a) = q.effectiveRange ⟨{}, later⟩ (some a) := by
  intro q a today later
  have hpinned : q.Pinned (some a) :=
    .inr (.inr ⟨a, ⟨2024, 2, 10, by decide, by decide, by decide⟩, rfl, by cbv⟩)
  exact ⟨hpinned, pinned_ignores_today q {} (some a) Filter.joinText today later hpinned⟩

end Query

end MetricSql
