import MetricSql.Proofs.Calendar.Arithmetic

namespace MetricSql

namespace Calendar

open Date

theorem daysBeforeYear_yearOf_lt (n : Int) : daysBeforeYear (yearOf n) < n := by
  unfold yearOf
  dsimp only
  split
  · assumption
  · split
    · assumption
    · unfold daysBeforeYear
      omega

theorem le_daysBeforeYear_yearOf (n : Int) : n ≤ daysBeforeYear (yearOf n + 1) := by
  unfold yearOf
  dsimp only
  split
  · unfold daysBeforeYear
    omega
  · next h =>
    split
    · rw [Int.add_assoc]
      exact Int.not_lt.mp h
    · next k => exact Int.not_lt.mp k

variable {y : Int} {ordinal : Nat}

theorem monthOf_pos (y : Int) (ordinal m : Nat) : 1 ≤ monthOf y ordinal m := by
  induction m with
  | zero => exact Nat.le_refl 1
  | succ m ih =>
    unfold monthOf
    split
    · exact Nat.le_add_left 1 m
    · exact ih

theorem monthOf_le (y : Int) (ordinal m : Nat) : monthOf y ordinal (m + 1) ≤ m + 1 := by
  induction m with
  | zero =>
    unfold monthOf
    split
    · exact Nat.le_refl 1
    · exact Nat.le_refl 1
  | succ m ih =>
    unfold monthOf
    split
    · exact Nat.le_refl _
    · exact Nat.le_succ_of_le ih

theorem daysBeforeMonth_monthOf_lt (h : 0 < ordinal) (m : Nat) :
    daysBeforeMonth y (monthOf y ordinal m) < ordinal := by
  induction m with
  | zero =>
    have hfirst : daysBeforeMonth y 1 = 0 := by simp [daysBeforeMonth]
    exact hfirst ▸ h
  | succ m ih =>
    unfold monthOf
    split
    · assumption
    · exact ih

theorem le_daysBeforeMonth_of_monthOf_lt {k : Nat} (m : Nat) (hk : monthOf y ordinal m < k)
    (hkm : k ≤ m) : ordinal ≤ daysBeforeMonth y k := by
  induction m with
  | zero =>
    have := monthOf_pos y ordinal 0
    omega
  | succ m ih =>
    unfold monthOf at hk
    split at hk
    · omega
    · next h =>
      obtain rfl | hlt := Nat.eq_or_lt_of_le hkm
      · exact Nat.not_lt.mp h
      · exact ih hk (Nat.le_of_lt_succ hlt)

theorem ordinal_sub_le_daysInMonth (h : ordinal ≤ yearLength y) :
    ordinal - daysBeforeMonth y (monthOf y ordinal 12) ≤ daysInMonth y (monthOf y ordinal 12) := by
  have hpos := monthOf_pos y ordinal 12
  obtain hm | hm : monthOf y ordinal 12 = 12 ∨ monthOf y ordinal 12 < 12 :=
    Nat.eq_or_lt_of_le (monthOf_le y ordinal 11)
  · have hlast := daysBeforeMonth_twelve y
    rw [hm]
    omega
  · have hle := le_daysBeforeMonth_of_monthOf_lt (k := monthOf y ordinal 12 + 1) 12
      (Nat.lt_succ_self _) hm
    rw [daysBeforeMonth_succ y ⟨hpos, Nat.le_of_lt_succ hm⟩] at hle
    omega

end Calendar

open Calendar

namespace Date

variable {d e : Date} {n y : Int}

theorem make?_isSome {m k : Nat} (hy : minYear ≤ y ∧ y ≤ maxYear) (hm : 1 ≤ m ∧ m ≤ 12)
    (hk : 1 ≤ k ∧ k ≤ daysInMonth y m) : ∃ d, make? y m k = some d := by
  unfold make?
  rw [dif_pos hy, dif_pos hm, dif_pos hk]
  exact ⟨_, rfl⟩

theorem le_latest (d : Date) : d ≤ latest := by
  rw [← not_lt, lt_iff]
  have hy := d.year_range.2
  have hm := d.month_range.2
  have hd := d.day_range.2
  simp only [latest, maxYear] at hy ⊢
  rintro (h | ⟨h, k | ⟨k, hlt⟩⟩)
  · omega
  · omega
  · have h31 : daysInMonth d.year d.month = 31 := by rw [← k]; rfl
    omega

theorem exists_dayNumber_eq (hlo : earliest.dayNumber ≤ n) (hhi : n ≤ latest.dayNumber) :
    ∃ d, ofDayNumber? n = some d ∧ d.dayNumber = n := by
  have hlt := daysBeforeYear_yearOf_lt n
  have hle := le_daysBeforeYear_yearOf n
  have hnext := daysBeforeYear_succ (yearOf n)
  have hmin : minYear ≤ yearOf n := by
    by_contra h
    have hyear := daysBeforeYear_le (show yearOf n + 1 ≤ minYear by omega)
    have hpos := earliest.dayOfYear_pos
    rw [dayNumber_eq] at hlo
    change daysBeforeYear minYear + _ ≤ n at hlo
    omega
  have hmax : yearOf n ≤ maxYear := by
    by_contra h
    have hyear := daysBeforeYear_le (show maxYear + 1 ≤ yearOf n by omega)
    have hend := latest.dayOfYear_le
    have hlast := daysBeforeYear_succ maxYear
    rw [dayNumber_eq] at hhi
    change n ≤ daysBeforeYear maxYear + _ at hhi
    change latest.dayOfYear ≤ yearLength maxYear at hend
    omega
  have hbefore := daysBeforeMonth_monthOf_lt (y := yearOf n)
    (show 0 < (n - daysBeforeYear (yearOf n)).toNat by omega) 12
  obtain ⟨d, hd⟩ := make?_isSome ⟨hmin, hmax⟩ ⟨monthOf_pos _ _ _, monthOf_le _ _ 11⟩
    ⟨Nat.sub_pos_of_lt hbefore, ordinal_sub_le_daysInMonth (y := yearOf n)
      (show (n - daysBeforeYear (yearOf n)).toNat ≤ _ by omega)⟩
  exact ⟨d, hd, dayNumber_ofDayNumber? hd⟩

theorem dayNumber_minusDays (d : Date) (k : Nat) :
    (d.minusDays k).dayNumber = Max.max earliest.dayNumber (d.dayNumber - k) := by
  have hd : d.dayNumber ≤ latest.dayNumber := d.le_latest
  unfold minusDays
  obtain h | h := Int.lt_or_le (d.dayNumber - k) earliest.dayNumber
  · cases he : ofDayNumber? (d.dayNumber - k) with
    | none =>
      rw [Option.getD_none]
      omega
    | some e =>
      have hmin : earliest.dayNumber ≤ e.dayNumber := e.earliest_le
      rw [dayNumber_ofDayNumber? he] at hmin
      omega
  · obtain ⟨e, he, hn⟩ := exists_dayNumber_eq h (by omega)
    rw [he, Option.getD_some, hn]
    omega

theorem minusDays_le_iff {k : Nat} : d.minusDays k ≤ e ↔ d.dayNumber - k ≤ e.dayNumber := by
  have he : earliest.dayNumber ≤ e.dayNumber := e.earliest_le
  rw [le_def, dayNumber_minusDays]
  omega

theorem getD_make?_le_iff (hy : y ≤ maxYear) :
    (make? y 1 1).getD earliest ≤ d ↔ y ≤ d.year := by
  refine ⟨fun h => ?_, le_of_make?⟩
  obtain hmin | hmin := Int.lt_or_le y minYear
  · exact (Int.le_of_lt hmin).trans d.year_range.1
  · obtain ⟨e, he⟩ := make?_isSome ⟨hmin, hy⟩ (m := 1) (by decide)
      ⟨Nat.le_refl 1, Nat.le_trans (by decide) (daysInMonth_pos y 1)⟩
    rw [he] at h
    exact (make?_eq_some he).1 ▸ year_le_of_le h

theorem monthNumber_le_of_le (h : d ≤ e) : d.monthNumber ≤ e.monthNumber := by
  rw [← not_lt, lt_iff] at h
  have hd := d.month_range
  have he := e.month_range
  unfold monthNumber
  omega

theorem exists_ofMonthNumber? (hmin : 12 * minYear ≤ n) (hn : n ≤ e.monthNumber) :
    ∃ d, ofMonthNumber? n = some d := by
  have hmonth := e.month_range.2
  have hmax := e.year_range.2
  rw [monthNumber] at hn
  exact make?_isSome (y := n / 12) (m := (n % 12).toNat + 1) (by omega) (by omega)
    ⟨Nat.le_refl 1, Nat.le_trans (by decide) (daysInMonth_pos _ _)⟩

theorem getD_ofMonthNumber?_le_iff (hn : n ≤ e.monthNumber) :
    (ofMonthNumber? n).getD earliest ≤ d ↔ n ≤ d.monthNumber := by
  refine ⟨fun h => ?_, le_of_ofMonthNumber?⟩
  obtain hmin | hmin := Int.lt_or_le n (12 * minYear)
  · have hd := d.month_range.1
    have hyear := d.year_range.1
    rw [monthNumber]
    omega
  · obtain ⟨f, hf⟩ := exists_ofMonthNumber? hmin hn
    rw [hf] at h
    exact (ofMonthNumber?_eq_some hf).1 ▸ monthNumber_le_of_le h

end Date

end MetricSql
