import Mathlib
import MetricSql.Calendar.Date

namespace MetricSql

namespace Calendar

def yearLength (y : Int) : Nat := if isLeap y then 366 else 365

theorem daysBeforeYear_succ (y : Int) : daysBeforeYear (y + 1) = daysBeforeYear y + yearLength y := by
  simp only [daysBeforeYear, yearLength, isLeap, Bool.and_eq_true, Bool.or_eq_true, beq_iff_eq,
    bne_iff_ne, ne_eq]
  split <;> omega

theorem daysBeforeYear_le {y z : Int} (h : y ≤ z) : daysBeforeYear y ≤ daysBeforeYear z := by
  unfold daysBeforeYear
  omega

theorem daysBeforeMonth_le (y : Int) {m n : Nat} (hm : 1 ≤ m) (hmn : m < n) (hn : n ≤ 12) :
    daysBeforeMonth y m + daysInMonth y m ≤ daysBeforeMonth y n := by
  induction n with
  | zero => omega
  | succ n ih =>
    rw [daysBeforeMonth_succ y (by omega)]
    obtain h | rfl := Nat.lt_succ_iff_lt_or_eq.mp hmn
    · have := ih h (by omega)
      omega
    · exact Nat.le_refl _

theorem daysBeforeMonth_twelve (y : Int) :
    daysBeforeMonth y 12 + daysInMonth y 12 = yearLength y := by
  cases h : isLeap y <;> simp [daysBeforeMonth, daysInMonth, yearLength, h]

end Calendar

open Calendar

namespace Date

variable {a b d : Date}

def dayOfYear (d : Date) : Nat := daysBeforeMonth d.year d.month + d.day

theorem dayNumber_eq (d : Date) : d.dayNumber = daysBeforeYear d.year + d.dayOfYear := by
  simp only [dayNumber, dayOfYear]
  omega

theorem dayOfYear_pos (d : Date) : 0 < d.dayOfYear := Nat.lt_add_left _ d.day_range.1

theorem dayOfYear_le (d : Date) : d.dayOfYear ≤ yearLength d.year := by
  have hday := d.day_range.2
  have hmonth := d.month_range
  have hlast := daysBeforeMonth_twelve d.year
  unfold dayOfYear
  obtain h | h := Nat.lt_or_ge d.month 12
  · have := daysBeforeMonth_le d.year hmonth.1 h (Nat.le_refl 12)
    omega
  · obtain h : d.month = 12 := by omega
    rw [h] at hday ⊢
    omega

theorem lt_of_year_lt (h : a.year < b.year) : a < b := by
  have ha := a.dayOfYear_le
  have hb := b.dayOfYear_pos
  have hnext := daysBeforeYear_succ a.year
  have hle := daysBeforeYear_le (show a.year + 1 ≤ b.year by omega)
  rw [lt_def, dayNumber_eq, dayNumber_eq]
  omega

theorem lt_of_month_lt (hy : a.year = b.year) (h : a.month < b.month) : a < b := by
  have hday := a.day_range.2
  have hb := b.day_range.1
  have hle := daysBeforeMonth_le a.year a.month_range.1 h b.month_range.2
  rw [lt_def, dayNumber_eq, dayNumber_eq, dayOfYear, dayOfYear, ← hy]
  omega

theorem lt_of_day_lt (hy : a.year = b.year) (hm : a.month = b.month) (h : a.day < b.day) :
    a < b := by
  rw [lt_def, dayNumber_eq, dayNumber_eq, dayOfYear, dayOfYear, ← hy, ← hm]
  omega

theorem eq_of_fields (hy : a.year = b.year) (hm : a.month = b.month) (hd : a.day = b.day) :
    a = b := by
  cases a
  cases b
  simp_all

theorem lt_iff : a < b ↔
    a.year < b.year ∨ a.year = b.year ∧
      (a.month < b.month ∨ a.month = b.month ∧ a.day < b.day) := by
  have hasymm : b < a → ¬a < b := fun h => Int.not_lt.mpr (Int.le_of_lt h)
  constructor
  · intro h
    obtain hy | hy | hy := Int.lt_trichotomy a.year b.year
    · exact Or.inl hy
    · obtain hm | hm | hm := Nat.lt_trichotomy a.month b.month
      · exact Or.inr ⟨hy, Or.inl hm⟩
      · obtain hd | hd | hd := Nat.lt_trichotomy a.day b.day
        · exact Or.inr ⟨hy, Or.inr ⟨hm, hd⟩⟩
        · exact absurd h (eq_of_fields hy hm hd ▸ Int.lt_irrefl _)
        · exact absurd h (hasymm (lt_of_day_lt hy.symm hm.symm hd))
      · exact absurd h (hasymm (lt_of_month_lt hy.symm hm))
    · exact absurd h (hasymm (lt_of_year_lt hy))
  · rintro (hy | ⟨hy, hm | ⟨hm, hd⟩⟩)
    · exact lt_of_year_lt hy
    · exact lt_of_month_lt hy hm
    · exact lt_of_day_lt hy hm hd

theorem eq_of_dayNumber_eq (h : a.dayNumber = b.dayNumber) : a = b := by
  have hab : ¬a < b := Int.not_lt.mpr (Int.le_of_eq h.symm)
  have hba : ¬b < a := Int.not_lt.mpr (Int.le_of_eq h)
  rw [lt_iff] at hab hba
  exact eq_of_fields (by omega) (by omega) (by omega)

instance : LinearOrder Date where
  le_refl _ := Int.le_refl _
  le_trans _ _ _ := Int.le_trans
  lt_iff_le_not_ge _ _ := Int.lt_iff_le_and_not_ge
  le_antisymm _ _ h k := eq_of_dayNumber_eq (Int.le_antisymm h k)
  le_total _ _ := Int.le_total _ _
  toDecidableLE := inferInstance
  toDecidableEq := inferInstance

theorem year_le_of_le (h : a ≤ b) : a.year ≤ b.year :=
  Int.not_lt.mp fun hy => not_lt.mpr h (lt_of_year_lt hy)

theorem earliest_le (d : Date) : earliest ≤ d := by
  have hy := d.year_range.1
  have hm := d.month_range.1
  have hd := d.day_range.1
  rw [← not_lt, lt_iff]
  simp only [earliest, minYear] at hy ⊢
  omega

theorem make?_eq_some {y : Int} {m n : Nat} (h : make? y m n = some d) :
    d.year = y ∧ d.month = m ∧ d.day = n := by
  unfold make? at h
  split at h <;> try cases h
  split at h <;> try cases h
  split at h <;> cases h
  exact ⟨rfl, rfl, rfl⟩

end Date

end MetricSql
