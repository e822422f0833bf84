import MetricSql.Proofs.Calendar.Arithmetic
import MetricSql.Proofs.Text.Extremes
import MetricSql.Window.Recent

namespace MetricSql

open Text

/-- A span of days that begins neither before the bound nor after it ends, and ends by `stop`. -/
structure DateSpan.Within (lo? : Option Date) (stop : Date) (s : DateSpan) : Prop where
  start : ∀ lo, lo? = some lo → lo ≤ s.1
  ordered : s.1 ≤ s.2
  stop : s.2 ≤ stop

section MonthSpans

variable {lo? : Option Date} {stop : Date} {later : List DateSpan}

theorem forall_mem_monthSpans {P : DateSpan → Prop}
    (hpart : ∀ start : Date, start.clampTo lo? ≤ start.lastOfMonth.min stop →
      P (start.clampTo lo?, start.lastOfMonth.min stop))
    (n : Nat) (start? : Option Date) (hlater : ∀ s ∈ later, P s) :
    ∀ s ∈ monthSpans lo? stop n start? later, P s := by
  induction n generalizing start? later with
  | zero => exact hlater
  | succ n ih =>
    cases start? with
    | none => exact hlater
    | some start =>
      have hspans : ∀ s ∈ (if start.clampTo lo? ≤ start.lastOfMonth.min stop
          then (start.clampTo lo?, start.lastOfMonth.min stop) :: later else later), P s := by
        intro s hs
        split at hs
        · next h =>
          obtain rfl | hs := List.mem_cons.mp hs
          · exact hpart start h
          · exact hlater s hs
        · exact hlater s hs
      unfold monthSpans
      dsimp only
      by_cases hstart : start < start.clampTo lo?
      · rw [if_pos hstart]
        exact hspans
      · rw [if_neg hstart]
        exact ih _ hspans

theorem length_monthSpans_le (n : Nat) (start? : Option Date) :
    (monthSpans lo? stop n start? later).length ≤ n + later.length := by
  induction n generalizing start? later with
  | zero => exact Nat.le_of_eq (Nat.zero_add _).symm
  | succ n ih =>
    cases start? with
    | none => exact Nat.le_add_left _ _
    | some start =>
      have hspans : (if start.clampTo lo? ≤ start.lastOfMonth.min stop
          then (start.clampTo lo?, start.lastOfMonth.min stop) :: later
          else later).length ≤ later.length + 1 := by
        split
        · exact Nat.le_refl _
        · exact Nat.le_succ _
      unfold monthSpans
      dsimp only
      split
      · omega
      · exact (ih _).trans (by omega)

end MonthSpans

namespace DateRules

variable {r : DateRules} {a : Availability} {w : Window} {start stop : String}

/-- The days that a recent range may begin and end with: the first is not before the availability,
and only its start may lie after the last available day. -/
structure Bounds (r : DateRules) (a : Availability) (first last : Date) : Prop where
  start : ∀ lo, a.start? = some lo → lo ≤ first
  first : first ≤ r.lastDay a ∨ a.start? = some first
  last : last ≤ r.lastDay a

theorem recentMonths_within : ∀ s ∈ r.recentMonths a w, DateSpan.Within a.start? (r.lastDay a) s :=
  forall_mem_monthSpans
    (fun _ h => ⟨fun _ hlo => Date.bound_le_clampTo hlo _, h, min_le_right _ _⟩) _ _ (by simp)

theorem recentSpan_bounds (r : DateRules) (a : Availability) (w : Window) (p : Period) :
    r.Bounds a (r.recentSpan a w p).1 (r.recentSpan a w p).2 := by
  refine ⟨fun _ hlo => Date.bound_le_clampTo hlo _, ?_, le_refl _⟩
  obtain h | h := Date.clampTo_eq_or a.start? (p.windowStart (r.lastDay a) (r.recentUnit w))
  · left
    rw [recentSpan, h]
    exact p.windowStart_le _ _
  · exact Or.inr h

theorem recentRange_eq_some (h : r.recentRange a w = some (start, stop)) :
    ∃ first last : Date, r.Bounds a first last ∧ start = first.text ∧ stop = last.text := by
  have hspan : ∀ p : Period, some (r.recentSpan a w p).texts = some (start, stop) →
      ∃ first last : Date, r.Bounds a first last ∧ start = first.text ∧ stop = last.text := by
    intro p hp
    obtain ⟨rfl, rfl⟩ := Prod.mk.inj (Option.some.inj hp)
    exact ⟨_, _, r.recentSpan_bounds a w p, rfl, rfl⟩
  unfold recentRange at h
  split at h
  · exact hspan _ h
  · exact hspan _ h
  · simp only [monthRange, Option.bind_eq_bind, Option.pure_def, Option.bind_eq_some_iff] at h
    obtain ⟨_, hleast, _, hgreatest, h⟩ := h
    obtain ⟨rfl, rfl⟩ := Prod.mk.inj (Option.some.inj h)
    obtain ⟨s, hs, rfl⟩ := leastOf_mem hleast
    obtain ⟨e, he, rfl⟩ := greatestOf_mem hgreatest
    have hsw := recentMonths_within s hs
    have hew := recentMonths_within e he
    exact ⟨s.1, e.2, ⟨hsw.start, Or.inl (hsw.ordered.trans hsw.stop), hew.stop⟩, rfl, rfl⟩
  · exact hspan _ h
  · exact hspan _ h

section Congruence

variable {r' : DateRules} {b : Availability}

theorem column_congr (hcolumns : r.columns = r'.columns) (w : Window) :
    r.column w = r'.column w := by
  rw [column, column, hcolumns]

theorem recentUnit_congr (hcolumns : r.columns = r'.columns) (w : Window) :
    r.recentUnit w = r'.recentUnit w := by
  rw [recentUnit, recentUnit, hcolumns]

variable (hcolumns : r.columns = r'.columns) (hstart : a.start? = b.start?)
  (hday : r.lastDay a = r'.lastDay b)
include hcolumns hstart hday

/-- A recent window depends on the first and the last available day only, and on the present day
through the last one. -/
theorem recentRange_congr : r.recentRange a w = r'.recentRange b w := by
  have hunit := recentUnit_congr hcolumns w
  have hspan (p : Period) : r.recentSpan a w p = r'.recentSpan b w p := by
    rw [recentSpan, recentSpan, hday, hstart, hunit]
  have hmonths : r.monthRange a w = r'.monthRange b w := by
    rw [monthRange, monthRange, recentMonths, recentMonths, hday, hstart, hunit]
  cases hperiod : w.period with
  | day => simp only [recentRange, recentDay, hperiod, hspan]
  | week => simp only [recentRange, recentWeek, hperiod, hspan]
  | month => simp only [recentRange, hperiod, hmonths]
  | quarter | year => simp only [recentRange, hperiod, hspan]

theorem recentWhere_congr : r.recentWhere a w = r'.recentWhere b w := by
  simp only [recentWhere, column_congr hcolumns, recentRange_congr hcolumns hstart hday]

end Congruence

end DateRules

end MetricSql
