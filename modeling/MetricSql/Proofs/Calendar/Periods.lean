import MetricSql.Proofs.Calendar.DayNumbers

namespace MetricSql

namespace Calendar

/-- The number of the first day of month `i`, in a calendar without bounds. -/
def monthStart (i : Int) : Int :=
  daysBeforeYear (i / 12) + daysBeforeMonth (i / 12) ((i % 12).toNat + 1) + 1

theorem monthStart_succ (i : Int) :
    monthStart (i + 1) = monthStart i + daysInMonth (i / 12) ((i % 12).toNat + 1) := by
  unfold monthStart
  obtain h | h : i % 12 = 11 ∨ i % 12 < 11 := by omega
  · have hyear : (i + 1) / 12 = i / 12 + 1 := by omega
    have hmonth : ((i + 1) % 12).toNat + 1 = 1 := by omega
    have hfirst : daysBeforeMonth (i / 12 + 1) 1 = 0 := by simp [daysBeforeMonth]
    have hlast := daysBeforeMonth_twelve (i / 12)
    rw [hyear, hmonth, hfirst, daysBeforeYear_succ, show (i % 12).toNat + 1 = 12 by omega]
    omega
  · have hyear : (i + 1) / 12 = i / 12 := by omega
    have hmonth : ((i + 1) % 12).toNat = (i % 12).toNat + 1 := by omega
    rw [hyear, hmonth, daysBeforeMonth_succ _ (by omega)]
    omega

theorem monthStart_strictMono : StrictMono monthStart :=
  strictMono_int_of_lt_succ fun i => by
    have hpos := daysInMonth_pos (i / 12) ((i % 12).toNat + 1)
    rw [monthStart_succ]
    omega

theorem monthStart_january (y : Int) : monthStart (12 * y) = daysBeforeYear y + 1 := by
  have hyear : 12 * y / 12 = y := by omega
  have hmonth : (12 * y % 12).toNat + 1 = 1 := by omega
  have hfirst : daysBeforeMonth y 1 = 0 := by simp [daysBeforeMonth]
  rw [monthStart, hyear, hmonth, hfirst]
  omega

end Calendar

open Calendar

namespace Date

theorem monthNumber_ediv (d : Date) : d.monthNumber / 12 = d.year := by
  have hm := d.month_range
  rw [monthNumber]
  omega

theorem monthNumber_emod (d : Date) : (d.monthNumber % 12).toNat + 1 = d.month := by
  have hm := d.month_range
  rw [monthNumber]
  omega

theorem eq_of_monthNumber_eq {d e : Date} (h : d.monthNumber = e.monthNumber) :
    d.year = e.year ∧ d.month = e.month := by
  have hd := d.month_range
  have he := e.month_range
  rw [monthNumber, monthNumber] at h
  omega

theorem monthStart_monthNumber (d : Date) :
    monthStart d.monthNumber = daysBeforeYear d.year + daysBeforeMonth d.year d.month + 1 := by
  rw [monthStart, monthNumber_ediv, monthNumber_emod]

theorem monthStart_le_iff {d : Date} {i : Int} :
    monthStart i ≤ d.dayNumber ↔ i ≤ d.monthNumber := by
  have hd := d.day_range
  have hstart := d.monthStart_monthNumber
  constructor
  · intro h
    by_contra hlt
    have hle := monthStart_strictMono.monotone (Int.not_le.mp hlt)
    have hsucc := monthStart_succ d.monthNumber
    rw [monthNumber_ediv, monthNumber_emod] at hsucc
    rw [dayNumber] at h
    omega
  · intro h
    have hle := monthStart_strictMono.monotone h
    rw [dayNumber]
    omega

theorem dayNumber_of_day_eq_one {d : Date} (h : d.day = 1) :
    d.dayNumber = monthStart d.monthNumber := by
  rw [monthStart_monthNumber, dayNumber, h]
  rfl

theorem eq_of_dayNumber_eq_monthStart {d : Date} {i : Int} (h : d.dayNumber = monthStart i) :
    d.monthNumber = i ∧ d.day = 1 := by
  have hle := monthStart_le_iff.mp (Int.le_of_eq h.symm)
  have hmono := monthStart_strictMono.monotone hle
  have hstart := d.monthStart_monthNumber
  have hday := d.day_range.1
  rw [dayNumber] at h
  refine ⟨monthStart_strictMono.injective ?_, ?_⟩
  · omega
  · omega

theorem dayNumber_lastOfMonth (d : Date) :
    d.lastOfMonth.dayNumber + 1 = monthStart (d.monthNumber + 1) := by
  rw [monthStart_succ, monthStart_monthNumber, monthNumber_ediv, monthNumber_emod]
  show daysBeforeYear d.year + daysBeforeMonth d.year d.month + daysInMonth d.year d.month + 1 = _
  omega

theorem le_lastOfMonth (d : Date) : d ≤ d.lastOfMonth := by
  have hd := d.day_range.2
  rw [← not_lt, lt_iff]
  simp only [lastOfMonth]
  omega

theorem firstOfMonth_le (d : Date) : d.firstOfMonth ≤ d := by
  have hd := d.day_range.1
  rw [← not_lt, lt_iff]
  simp only [firstOfMonth]
  omega

theorem yearStart_le_iff {d : Date} {y : Int} :
    daysBeforeYear y + 1 ≤ d.dayNumber ↔ y ≤ d.year := by
  have hmonth := d.month_range
  rw [← monthStart_january, monthStart_le_iff, monthNumber]
  omega

end Date

namespace Period

def index (p : Period) (d : Date) : Int :=
  match p with
  | day => d.dayNumber
  | week => (d.dayNumber - 1) / 7
  | month => d.monthNumber
  | quarter => d.monthNumber / 3
  | year => d.year

def firstDay (p : Period) (i : Int) : Int :=
  match p with
  | day => i
  | week => 7 * i + 1
  | month => monthStart i
  | quarter => monthStart (3 * i)
  | year => daysBeforeYear i + 1

variable {p : Period} {d stop : Date} {i : Int}

theorem firstDay_le_iff : p.firstDay i ≤ d.dayNumber ↔ i ≤ p.index d := by
  cases p with
  | day => exact Iff.rfl
  | week =>
    show 7 * i + 1 ≤ d.dayNumber ↔ i ≤ (d.dayNumber - 1) / 7
    omega
  | month => exact Date.monthStart_le_iff
  | quarter =>
    refine Date.monthStart_le_iff.trans ?_
    show 3 * i ≤ d.monthNumber ↔ i ≤ d.monthNumber / 3
    omega
  | year => exact Date.yearStart_le_iff

theorem dayNumber_sub_lt (d e : Date) : d.dayNumber - e.dayNumber < countLimit := by
  have hd : d.dayNumber ≤ Date.latest.dayNumber := d.le_latest
  have he : Date.earliest.dayNumber ≤ e.dayNumber := e.earliest_le
  have hrange : Date.latest.dayNumber - Date.earliest.dayNumber < countLimit := by decide
  omega

theorem monthNumber_sub_lt (d e : Date) : d.monthNumber - e.monthNumber + 3 < countLimit := by
  have hd := d.year_range
  have he := e.year_range
  have hdm := d.month_range
  have hem := e.month_range
  have hrange : 12 * (maxYear - minYear + 2) < countLimit := by decide
  unfold Date.monthNumber
  omega

/-- A window begins with the first day of a period, as long as that is a date. Counts that would
be too large are cut off, but then the period lies before all dates. -/
theorem windowStart_le_iff {n : UInt32} :
    p.windowStart stop n ≤ d ↔ p.firstDay (p.index stop - (n.toNat - 1 : Nat)) ≤ d.dayNumber := by
  rw [firstDay_le_iff]
  cases p with
  | day => exact Date.minusDays_le_iff
  | week =>
    have hd : Date.earliest.dayNumber ≤ d.dayNumber := d.earliest_le
    have hrange := dayNumber_sub_lt stop d
    simp only [windowStart, index, saturate, Date.daysFromMonday, Date.minusDays_le_iff,
      Date.dayNumber_minusDays]
    omega
  | month => exact Date.getD_ofMonthNumber?_le_iff (Int.sub_le_self _ (Int.natCast_nonneg _))
  | quarter =>
    have hm := stop.month_range
    have hrange := monthNumber_sub_lt stop d
    simp only [windowStart, index, saturate]
    rw [Date.getD_ofMonthNumber?_le_iff (Int.sub_le_self _ (Int.natCast_nonneg _))]
    unfold Date.monthNumber at hrange ⊢
    omega
  | year =>
    simp only [windowStart, newYear?_eq_make?]
    refine Date.getD_make?_le_iff ?_
    have hy := stop.year_range.2
    omega

/-- Whether a date is the first one of its week, which begins on Monday, its month, its quarter or
its year. -/
def Begins (p : Period) (d : Date) : Prop :=
  match p with
  | day => True
  | week => d.daysFromMonday = 0
  | month => d.day = 1
  | quarter => d.day = 1 ∧ d.month ∈ [1, 4, 7, 10]
  | year => d.day = 1 ∧ d.month = 1

theorem begins_of_dayNumber_eq (h : d.dayNumber = p.firstDay i) : p.index d = i ∧ p.Begins d := by
  cases p with
  | day => exact ⟨h, trivial⟩
  | week =>
    simp only [firstDay] at h
    simp only [index, Begins, Date.daysFromMonday, h]
    omega
  | month => exact Date.eq_of_dayNumber_eq_monthStart h
  | quarter =>
    obtain ⟨hmonth, hday⟩ := Date.eq_of_dayNumber_eq_monthStart h
    have hrange := d.month_range
    simp only [index, Begins, hday, List.mem_cons, List.not_mem_nil, true_and]
    rw [Date.monthNumber] at hmonth ⊢
    omega
  | year =>
    obtain ⟨hmonth, hday⟩ := Date.eq_of_dayNumber_eq_monthStart (h.trans (monthStart_january i).symm)
    have hrange := d.month_range
    simp only [index, Begins, hday, true_and]
    rw [Date.monthNumber] at hmonth
    omega

/-- Whether all counts on the way to the start of a window are exact: none is cut off, and none is
missing in the words that hold years. -/
def Exact (p : Period) (stop : Date) (back : Nat) : Prop :=
  match p with
  | day | month => True
  | week => saturate (back * 7) = back * 7
  | quarter =>
    let intoQuarter := (stop.month - 1) % 3
    saturate (back * 3) = back * 3 ∧
      saturate (intoQuarter + back * 3) = intoQuarter + back * 3
  | year =>
    yearWord? back = some (back : Int) ∧ yearWord? (stop.year - back) = some (stop.year - back)

theorem index_sub_le_of_not_exact {back : Nat} (h : ¬p.Exact stop back) (d : Date) :
    p.index stop - back ≤ p.index d := by
  cases p with
  | day | month => exact absurd trivial h
  | week =>
    have hrange := dayNumber_sub_lt stop d
    simp only [Exact, saturate] at h
    simp only [index]
    omega
  | quarter =>
    have hrange := monthNumber_sub_lt stop d
    simp only [Exact, saturate] at h
    simp only [index]
    omega
  | year =>
    have hstop := stop.year_range
    have hd := d.year_range
    simp only [Exact, yearWord?_eq_some_iff] at h
    simp only [index, minYear, maxYear] at hstop hd ⊢
    omega

theorem firstDay_le_latest (back : Nat) :
    p.firstDay (p.index stop - back) ≤ Date.latest.dayNumber := by
  have hle : p.firstDay (p.index stop - back) ≤ stop.dayNumber :=
    firstDay_le_iff.mpr (Int.sub_le_self _ (Int.natCast_nonneg back))
  exact hle.trans stop.le_latest

/-- A window begins with the first day of a period, or with the earliest date when that day would
come before it. It does so wherever a count on the way is not exact. -/
theorem dayNumber_windowStart (stop : Date) (p : Period) (n : UInt32) :
    let i := p.index stop - (n.toNat - 1 : Nat)
    (p.windowStart stop n).dayNumber = max Date.earliest.dayNumber (p.firstDay i) ∧
      (Date.earliest.dayNumber ≤ p.firstDay i →
        p.index (p.windowStart stop n) = i ∧ p.Begins (p.windowStart stop n)) ∧
      (¬p.Exact stop (n.toNat - 1) → p.windowStart stop n = Date.earliest) := by
  intro i
  have hle : p.firstDay i ≤ (p.windowStart stop n).dayNumber := windowStart_le_iff.mp le_rfl
  have hmin : Date.earliest.dayNumber ≤ (p.windowStart stop n).dayNumber := Date.earliest_le _
  have hearly (h : p.firstDay i ≤ Date.earliest.dayNumber) :
      p.windowStart stop n = Date.earliest :=
    le_antisymm (windowStart_le_iff.mpr h) (Date.earliest_le _)
  have hfirst (h : Date.earliest.dayNumber ≤ p.firstDay i) :
      (p.windowStart stop n).dayNumber = p.firstDay i := by
    obtain ⟨d, -, hd⟩ := Date.exists_dayNumber_eq h (firstDay_le_latest _)
    have hwindow : p.windowStart stop n ≤ d := windowStart_le_iff.mpr (Int.le_of_eq hd.symm)
    exact Int.le_antisymm (hd ▸ hwindow) hle
  refine ⟨?_, fun h => begins_of_dayNumber_eq (hfirst h), fun h => hearly ?_⟩
  · obtain h | h := Int.le_total (p.firstDay i) Date.earliest.dayNumber
    · rw [max_eq_left h, hearly h]
    · rw [max_eq_right h, hfirst h]
  · exact firstDay_le_iff.mpr (index_sub_le_of_not_exact h _)

end Period

end MetricSql
