import MetricSql.Calendar.Period
import MetricSql.Proofs.Calendar.Order

namespace MetricSql

open Calendar

namespace Date

variable {a b d : Date}

theorem dayNumber_ofDayNumber? {n : Int} (h : ofDayNumber? n = some d) : d.dayNumber = n := by
  obtain ⟨hy, hm, hd⟩ := make?_eq_some h
  have hpos := d.day_range.1
  rw [dayNumber, hy, hm, hd]
  omega

theorem minusDays_le (d : Date) (n : Nat) : d.minusDays n ≤ d := by
  unfold minusDays
  cases h : ofDayNumber? (d.dayNumber - n) with
  | none => exact earliest_le d
  | some e =>
    have he := dayNumber_ofDayNumber? h
    show e.dayNumber ≤ d.dayNumber
    omega

theorem ofMonthNumber?_eq_some {n : Int} (h : ofMonthNumber? n = some d) :
    d.monthNumber = n ∧ d.day = 1 := by
  obtain ⟨hy, hm, hd⟩ := make?_eq_some h
  refine ⟨?_, hd⟩
  rw [monthNumber, hy, hm]
  omega

theorem le_of_monthNumber_le (hd : a.day = 1) (h : a.monthNumber ≤ b.monthNumber) : a ≤ b := by
  have ha := a.month_range
  have hb := b.month_range
  have hb' := b.day_range.1
  unfold monthNumber at h
  rw [← not_lt, lt_iff]
  omega

theorem le_of_ofMonthNumber? {n : Int} (hn : n ≤ d.monthNumber) :
    (ofMonthNumber? n).getD earliest ≤ d := by
  cases h : ofMonthNumber? n with
  | none => exact earliest_le d
  | some e =>
    obtain ⟨he, hday⟩ := ofMonthNumber?_eq_some h
    rw [Option.getD_some]
    exact le_of_monthNumber_le hday (by omega)

theorem le_of_make? {y : Int} (hy : y ≤ d.year) : (make? y 1 1).getD earliest ≤ d := by
  cases h : make? y 1 1 with
  | none => exact earliest_le d
  | some e =>
    obtain ⟨hy', hm, hd⟩ := make?_eq_some h
    have hmonth := d.month_range.1
    have hday := d.day_range.1
    rw [Option.getD_some, ← not_lt, lt_iff]
    omega

theorem bound_le_clampTo {lo? : Option Date} {lo : Date} (h : lo? = some lo) (d : Date) :
    lo ≤ d.clampTo lo? := by
  subst h
  exact le_max_right d lo

theorem clampTo_eq_or (lo? : Option Date) (d : Date) :
    d.clampTo lo? = d ∨ lo? = some (d.clampTo lo?) := by
  cases lo? with
  | none => exact Or.inl rfl
  | some lo =>
    obtain h | h := max_choice d lo
    · exact Or.inl h
    · exact Or.inr (congrArg some h.symm)

theorem clampTo_eq_bound {lo : Date} (h : d ≤ lo) : d.clampTo (some lo) = lo := max_eq_right h

theorem clampTo_eq_self {lo? : Option Date} (h : ∀ lo, lo? = some lo → lo ≤ d) :
    d.clampTo lo? = d := by
  cases lo? with
  | none => rfl
  | some lo => exact max_eq_left (h lo rfl)

theorem clampTo_le_iff {lo? : Option Date} :
    d.clampTo lo? ≤ a ↔ d ≤ a ∧ ∀ lo, lo? = some lo → lo ≤ a := by
  cases lo? with
  | none => simp [clampTo]
  | some lo =>
    have hmax : d.clampTo (some lo) ≤ a ↔ d ≤ a ∧ lo ≤ a := max_le_iff
    simp [hmax]

end Date

theorem Period.windowStart_le (stop : Date) (p : Period) (n : UInt32) :
    p.windowStart stop n ≤ stop := by
  cases p with
  | day => exact stop.minusDays_le _
  | week => exact le_trans (Date.minusDays_le _ _) (stop.minusDays_le _)
  | month | quarter =>
    unfold windowStart
    exact Date.le_of_ofMonthNumber? (Int.sub_le_self _ (Int.natCast_nonneg _))
  | year =>
    simp only [windowStart, newYear?_eq_make?]
    exact Date.le_of_make? (Int.sub_le_self _ (Int.natCast_nonneg _))

end MetricSql
