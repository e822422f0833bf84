import MetricSql.Proofs.Window.Requested
import MetricSql.Query.Where

namespace MetricSql

variable {r : DateRules} {w : Window} {a : Availability} {a? : Option Availability}

/-- The window names no days: nothing is listed, or an end of the interval is left open. -/
def Window.NamesNoDays (w : Window) : Prop :=
  w.mode = .list ∧ w.dateList = [] ∨ w.mode = .between ∧ (w.startDate = none ∨ w.endDate = none)

theorem DatePredicate.optionText_some (p : DatePredicate) : optionText (some p) = p.text := rfl

namespace DateRules

theorem listWhere_eq_none_iff (hcol : r.column w ≠ "") :
    r.listWhere w = none ↔ w.dateList = [] := by
  simp [listWhere, hcol]

theorem betweenWhere_eq_none_iff (hcol : r.column w ≠ "") :
    r.betweenWhere w = none ↔ w.startDate = none ∨ w.endDate = none := by
  cases hstart : w.startDate <;> cases hstop : w.endDate <;>
    simp [betweenWhere, hstart, hstop, hcol]

theorem dateWhere_eq_none_iff (a? : Option Availability) (hcol : r.column w ≠ "") :
    r.dateWhere w a? = none ↔ NothingKnown a? ∧ w.NamesNoDays := by
  obtain hnothing | ⟨a, rfl, hknown⟩ := nothingKnown_or a?
  · have hdefault : r.defaultRecent w ≠ none := by
      rw [defaultRecent_eq hcol]
      exact Option.some_ne_none _
    rw [dateWhere_of_nothingKnown hnothing, and_iff_right hnothing, Window.NamesNoDays]
    cases hmode : w.mode with
    | list => simp [listWhere_eq_none_iff hcol]
    | between => simp [betweenWhere_eq_none_iff hcol]
    | available | recent => simp [hdefault]
  · obtain ⟨p, hp⟩ := restrictedWhere_isSome w a hcol
    rw [dateWhere_of_known hknown, hp]
    refine iff_of_false (Option.some_ne_none p) fun h => ?_
    exact nomatch (h.1 a rfl).symm.trans hknown

end DateRules

namespace Query

open DateRules

theorem dateText_eq {q : Query} (hw : q.window = some w) (a? : Option Availability) :
    q.dateText r a? = DatePredicate.optionText (r.dateWhere w a?) := by
  rw [dateText, hw, Option.bind_some]

theorem ne_enclosed (first second : String) : second ≠ first ++ " AND (" ++ second ++ ")" := by
  intro h
  have hlength := congrArg String.length h
  have hparen : ")".length = 1 := rfl
  simp only [String.length_append, hparen] at hlength
  omega

/-- Filters only narrow a query, except where the window names no days and none are known: without
filters the recent window stands in for such a window, and with filters nothing does. -/
theorem filters_narrow_iff (q : Query) (r : DateRules) (a? : Option Availability) (w : Window)
    (filterText : List Filter → String) (hw : q.window = some w) (hcol : r.column w ≠ "")
    (hfilters : filterText q.filters ≠ "") :
    let unfiltered := q.whereText r a? fun _ => ""
    unfiltered ≠ "" ∧
    (q.whereText r a? filterText = unfiltered ++ " AND (" ++ filterText q.filters ++ ")" ↔
      ¬(NothingKnown a? ∧ w.NamesNoDays)) ∧
    (NothingKnown a? ∧ w.NamesNoDays →
      unfiltered = DatePredicate.optionText (r.defaultRecent w) ∧
      q.whereText r a? filterText = filterText q.filters) := by
  intro unfiltered
  rw [← dateWhere_eq_none_iff a? hcol]
  have htext := dateText_eq (r := r) hw a?
  cases hp : r.dateWhere w a? with
  | none =>
    have hempty : q.dateText r a? = "" := by
      rw [htext, hp]
      rfl
    have hunfiltered : unfiltered = DatePredicate.optionText (r.defaultRecent w) := by
      simp only [unfiltered, whereText, mergeWhere, hempty, hw, if_true, Option.bind_some]
    have hfiltered : q.whereText r a? filterText = filterText q.filters := by
      simp only [whereText, mergeWhere, hempty, hfilters, if_true, if_false]
    refine ⟨?_, iff_of_false ?_ (not_not_intro rfl), fun _ => ⟨hunfiltered, hfiltered⟩⟩
    · rw [hunfiltered, defaultRecent_eq hcol, DatePredicate.optionText_some]
      exact DatePredicate.text_ne_empty _
    · rw [hfiltered]
      exact ne_enclosed unfiltered _
  | some p =>
    have hdate : q.dateText r a? = p.text := by rw [htext, hp, DatePredicate.optionText_some]
    have hne := p.text_ne_empty
    have hunfiltered : unfiltered = p.text := by
      simp only [unfiltered, whereText, mergeWhere, hdate, hne, if_true, if_false]
    refine ⟨hunfiltered ▸ hne, iff_of_true ?_ nofun, nofun⟩
    rw [hunfiltered]
    simp only [whereText, mergeWhere, hdate, hne, hfilters, if_false]

theorem filters_narrow_january :
    let q : Query :=
      { window := some
          { mode := .between, startDate := some "2024-01-01", endDate := some "2024-01-31" }
        filters := [⟨"region", .eq, .string "US"⟩] }
    let r : DateRules := { today := ⟨2024, 3, 15, by decide, by decide, by decide⟩ }
    ∃ w, q.window = some w ∧ r.column w ≠ "" ∧ Filter.joinText q.filters = "region = 'US'" ∧
      q.whereText r none Filter.joinText =
        q.whereText r none (fun _ => "") ++ " AND (" ++ Filter.joinText q.filters ++ ")" := by
  intro q r
  have htext : Filter.joinText q.filters = "region = 'US'" := by cbv
  have hnarrow := filters_narrow_iff q r none _ Filter.joinText rfl (by decide)
    (by rw [htext]; decide)
  refine ⟨_, rfl, by decide, htext, hnarrow.2.1.mpr ?_⟩
  rintro ⟨-, ⟨hlist, -⟩ | ⟨-, hopen | hopen⟩⟩
  · cases hlist
  · cases hopen
  · cases hopen

/-- The days since a given one lose their date condition as soon as there is a filter. -/
theorem filters_widen_open_interval :
    let q : Query :=
      { window := some { mode := .between, startDate := some "2024-01-01" }
        filters := [⟨"region", .eq, .string "US"⟩] }
    let r : DateRules := { today := ⟨2024, 3, 15, by decide, by decide, by decide⟩ }
    q.whereText r none (fun _ => "") =
        "sys_imp_date >= '2024-03-14' and sys_imp_date <= '2024-03-14'" ∧
      Filter.joinText q.filters = "region = 'US'" ∧
      q.whereText r none Filter.joinText = "region = 'US'" ∧
      q.whereText r none Filter.joinText ≠
        q.whereText r none (fun _ => "") ++ " AND (" ++ Filter.joinText q.filters ++ ")" := by
  intro q r
  have htext : Filter.joinText q.filters = "region = 'US'" := by cbv
  have hfiltered : q.whereText r none Filter.joinText = "region = 'US'" := by cbv
  refine ⟨by cbv, htext, hfiltered, ?_⟩
  rw [hfiltered, htext]
  exact ne_enclosed _ _

end Query

end MetricSql
