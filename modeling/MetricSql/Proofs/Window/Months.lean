import MetricSql.Proofs.Calendar.Periods
import MetricSql.Proofs.Calendar.TextForm
import MetricSql.Proofs.Window.Recent

namespace MetricSql

open Calendar

theorem Date.ofMonthNumber?_monthNumber {d : Date} (h : d.day = 1) :
    ofMonthNumber? d.monthNumber = some d := by
  rw [ofMonthNumber?, monthNumber_ediv, monthNumber_emod, ← h, make?_fields]

namespace DateSpan

/-- The spans follow one another without a gap, from day `a` to the day before `b`. -/
def Tiles : Int → List DateSpan → Int → Prop
  | a, [], b => a = b
  | a, s :: l, b => s.1.dayNumber = a ∧ s.1 ≤ s.2 ∧ Tiles (s.2.dayNumber + 1) l b

variable {a b : Int} {s : DateSpan} {l : List DateSpan}

theorem Tiles.bounds (h : Tiles a l b) : ∀ s ∈ l, a ≤ s.1.dayNumber ∧ s.2.dayNumber < b := by
  induction l generalizing a with
  | nil => simp
  | cons t l ih =>
    obtain ⟨hfirst, hle, hrest⟩ := h
    have hle : t.1.dayNumber ≤ t.2.dayNumber := hle
    intro s hs
    obtain rfl | hs := List.mem_cons.mp hs
    · refine ⟨Int.le_of_eq hfirst.symm, ?_⟩
      cases l with
      | nil => exact Int.lt_of_add_one_le (Int.le_of_eq hrest)
      | cons u l =>
        obtain ⟨hu, hu'⟩ := ih hrest u List.mem_cons_self
        have hordered : u.1.dayNumber ≤ u.2.dayNumber := hrest.2.1
        omega
    · obtain ⟨h1, h2⟩ := ih hrest s hs
      omega

theorem Tiles.exists_first (h : Tiles a l b) (hab : a < b) : ∃ s ∈ l, s.1.dayNumber = a := by
  cases l with
  | nil => exact absurd h (Int.ne_of_lt hab)
  | cons s l => exact ⟨s, List.mem_cons_self, h.1⟩

theorem Tiles.exists_last (h : Tiles a l b) (hab : a < b) : ∃ s ∈ l, s.2.dayNumber + 1 = b := by
  induction l generalizing a with
  | nil => exact absurd h (Int.ne_of_lt hab)
  | cons s l ih =>
    by_cases hs : s.2.dayNumber + 1 = b
    · exact ⟨s, List.mem_cons_self, hs⟩
    · have hlt := (Tiles.bounds h s List.mem_cons_self).2
      obtain ⟨t, ht, hb⟩ := ih h.2.2 (by omega)
      exact ⟨t, List.mem_cons_of_mem _ ht, hb⟩

end DateSpan

open Text Date DateSpan

variable {lo? : Option Date} {lo start stop : Date} {later : List DateSpan}

theorem monthSpans_of_lt (h : start < lo) (n : Nat) :
    monthSpans (some lo) stop (n + 1) (some start) later =
      if lo ≤ start.lastOfMonth.min stop then (lo, start.lastOfMonth.min stop) :: later
      else later := by
  have hclamp : start.clampTo (some lo) = lo := clampTo_eq_bound (le_of_lt h)
  simp only [monthSpans, hclamp, h, if_true]

theorem monthSpans_of_le (h : ∀ lo, lo? = some lo → lo ≤ start) (hstop : start ≤ stop) (n : Nat) :
    monthSpans lo? stop (n + 1) (some start) later =
      monthSpans lo? stop n (ofMonthNumber? (start.monthNumber - 1))
        ((start, start.lastOfMonth.min stop) :: later) := by
  have hclamp : start.clampTo lo? = start := clampTo_eq_self h
  have hordered : start ≤ start.lastOfMonth.min stop := le_min start.le_lastOfMonth hstop
  simp only [monthSpans, hclamp, hordered, lt_irrefl, if_true, if_false]

theorem le_earliest_of_ofMonthNumber? (hday : start.day = 1)
    (h : ofMonthNumber? (start.monthNumber - 1) = none) : start ≤ earliest := by
  refine le_of_monthNumber_le hday ?_
  by_contra hlt
  have hmin : earliest.monthNumber = 12 * minYear := rfl
  obtain ⟨d, hd⟩ := exists_ofMonthNumber? (e := start) (n := start.monthNumber - 1) (by omega)
    (by omega)
  rw [h] at hd
  cases hd

theorem monthSpans_tiles_of_lt (n : Nat) (hlt : start < lo) {d : Date} (hd : d ≤ start)
    (hlater : Tiles ((start.lastOfMonth.min stop).dayNumber + 1) later (stop.dayNumber + 1))
    (hlo : lo.dayNumber ≤ (start.lastOfMonth.min stop).dayNumber + 1) :
    Tiles (d.clampTo (some lo)).dayNumber (monthSpans (some lo) stop (n + 1) (some start) later)
      (stop.dayNumber + 1) := by
  rw [monthSpans_of_lt hlt, clampTo_eq_bound (hd.trans (le_of_lt hlt))]
  by_cases h : lo ≤ start.lastOfMonth.min stop
  · rw [if_pos h]
    exact ⟨rfl, h, hlater⟩
  · have hnext : lo.dayNumber = (start.lastOfMonth.min stop).dayNumber + 1 :=
      Int.le_antisymm hlo (Int.add_one_le_of_lt (Int.not_le.mp h))
    rw [if_neg h, hnext]
    exact hlater

/-- Going back by months keeps the days up to `stop` tiled. The walk ends with the month that `n`
steps lead to or with the bound, whichever is later. -/
theorem monthSpans_tiles (n : Nat) (hday : start.day = 1) (hstop : start ≤ stop)
    (hlater : Tiles ((start.lastOfMonth.min stop).dayNumber + 1) later (stop.dayNumber + 1))
    (hlo : ∀ lo, lo? = some lo → lo.dayNumber ≤ (start.lastOfMonth.min stop).dayNumber + 1) :
    Tiles (((ofMonthNumber? (start.monthNumber - n)).getD earliest).clampTo lo?).dayNumber
      (monthSpans lo? stop (n + 1) (some start) later) (stop.dayNumber + 1) := by
  have hwindow : (ofMonthNumber? (start.monthNumber - n)).getD earliest ≤ start :=
    le_of_ofMonthNumber? (Int.sub_le_self _ (Int.natCast_nonneg n))
  induction n generalizing start later with
  | zero =>
    by_cases hbound : ∃ lo, lo? = some lo ∧ start < lo
    · obtain ⟨lo, rfl, hlt⟩ := hbound
      exact monthSpans_tiles_of_lt 0 hlt hwindow hlater (hlo lo rfl)
    · have hself : ∀ lo, lo? = some lo → lo ≤ start := fun lo h =>
        not_lt.mp fun hlt => hbound ⟨lo, h, hlt⟩
      rw [monthSpans_of_le hself hstop, Int.natCast_zero, Int.sub_zero,
        ofMonthNumber?_monthNumber hday, Option.getD_some, clampTo_eq_self hself, monthSpans]
      exact ⟨rfl, le_min start.le_lastOfMonth hstop, hlater⟩
  | succ n ih =>
    by_cases hbound : ∃ lo, lo? = some lo ∧ start < lo
    · obtain ⟨lo, rfl, hlt⟩ := hbound
      exact monthSpans_tiles_of_lt _ hlt hwindow hlater (hlo lo rfl)
    have hself : ∀ lo, lo? = some lo → lo ≤ start := fun lo h =>
      not_lt.mp fun hlt => hbound ⟨lo, h, hlt⟩
    have hspans : Tiles start.dayNumber ((start, start.lastOfMonth.min stop) :: later)
        (stop.dayNumber + 1) := ⟨rfl, le_min start.le_lastOfMonth hstop, hlater⟩
    rw [monthSpans_of_le hself hstop]
    cases hprev : ofMonthNumber? (start.monthNumber - 1) with
    | none =>
      have hfirst : (ofMonthNumber? (start.monthNumber - (n + 1 : Nat))).getD earliest = start :=
        le_antisymm hwindow ((le_earliest_of_ofMonthNumber? hday hprev).trans (earliest_le _))
      rw [hfirst, clampTo_eq_self hself, monthSpans]
      exact hspans
    | some prev =>
      obtain ⟨hnumber, hday'⟩ := ofMonthNumber?_eq_some hprev
      have hend : prev.lastOfMonth.dayNumber + 1 = start.dayNumber := by
        rw [dayNumber_lastOfMonth, hnumber, Int.sub_add_cancel, dayNumber_of_day_eq_one hday]
      have hbefore : prev.lastOfMonth ≤ stop := by
        have hle : start.dayNumber ≤ stop.dayNumber := hstop
        rw [le_def]
        omega
      have hlast : prev.lastOfMonth.min stop = prev.lastOfMonth := min_eq_left hbefore
      have hback : start.monthNumber - (n + 1 : Nat) = prev.monthNumber - n := by omega
      rw [← hlast] at hend
      rw [hback]
      exact ih hday' (prev.le_lastOfMonth.trans hbefore) (hend ▸ hspans)
        (fun lo h => hend ▸ hself lo h)
        (le_of_ofMonthNumber? (Int.sub_le_self _ (Int.natCast_nonneg n)))

namespace DateRules

variable {r : DateRules} {a : Availability} {w : Window}

theorem exists_recentUnit_eq (r : DateRules) (w : Window) :
    ∃ n, (r.recentUnit w).toNat = n + 1 :=
  Nat.exists_eq_add_one_of_ne_zero fun h => r.recentUnit_ne_zero w (UInt32.toNat_inj.mp h)

theorem recentMonths_tiles (h : ∀ lo, a.start? = some lo → lo ≤ r.lastDay a) :
    Tiles ((r.recentSpan a w .month).1).dayNumber (r.recentMonths a w)
      ((r.lastDay a).dayNumber + 1) := by
  obtain ⟨n, hn⟩ := r.exists_recentUnit_eq w
  have hlast : (r.lastDay a).firstOfMonth.lastOfMonth.min (r.lastDay a) = r.lastDay a :=
    min_eq_right (r.lastDay a).le_lastOfMonth
  have hlater : Tiles (((r.lastDay a).firstOfMonth.lastOfMonth.min (r.lastDay a)).dayNumber + 1) []
      ((r.lastDay a).dayNumber + 1) := by
    rw [hlast]
    rfl
  have hlo : ∀ lo, a.start? = some lo →
      lo.dayNumber ≤ ((r.lastDay a).firstOfMonth.lastOfMonth.min (r.lastDay a)).dayNumber + 1 := by
    intro lo hlo
    have hle : lo.dayNumber ≤ (r.lastDay a).dayNumber := h lo hlo
    rw [hlast]
    exact hle.trans (Int.le_add_one le_rfl)
  have htiles := monthSpans_tiles n rfl (r.lastDay a).firstOfMonth_le hlater hlo
  simp only [recentMonths, recentSpan, Period.windowStart]
  rw [hn]
  exact htiles

theorem recentMonths_eq_nil {lo : Date} (hlo : a.start? = some lo) (h : r.lastDay a < lo) :
    r.recentMonths a w = [] := by
  obtain ⟨n, hn⟩ := r.exists_recentUnit_eq w
  have hstart := lt_of_le_of_lt (r.lastDay a).firstOfMonth_le h
  have hend : ¬lo ≤ (r.lastDay a).firstOfMonth.lastOfMonth.min (r.lastDay a) :=
    not_le.mpr (lt_of_le_of_lt (min_le_right _ _) h)
  simp only [recentMonths, hn, hlo]
  rw [monthSpans_of_lt hstart, if_neg hend]

structure MonthBounds (r : DateRules) (a : Availability) (w : Window) (start stop : Date) : Prop where
  start_mem : ∃ s ∈ r.recentMonths a w, s.1 = start
  stop_mem : ∃ s ∈ r.recentMonths a w, s.2 = stop
  start_le : ∀ s ∈ r.recentMonths a w, start.text ≤ s.1.text
  le_stop : ∀ s ∈ r.recentMonths a w, s.2.text ≤ stop.text

theorem exists_monthRange (h : r.recentMonths a w ≠ []) :
    ∃ start stop, r.monthRange a w = some (start.text, stop.text) ∧
      r.MonthBounds a w start stop := by
  obtain ⟨s, hs⟩ := List.exists_mem_of_ne_nil _ h
  obtain ⟨least, hleast, -⟩ := exists_leastOf (fun s : DateSpan => s.1.text) hs
  obtain ⟨greatest, hgreatest, -⟩ := exists_greatestOf (fun s : DateSpan => s.2.text) hs
  obtain ⟨t, ht, rfl⟩ := leastOf_mem hleast
  obtain ⟨e, he, rfl⟩ := greatestOf_mem hgreatest
  refine ⟨t.1, e.2, ?_, ⟨t, ht, rfl⟩, ⟨e, he, rfl⟩, fun u hu => ?_, fun u hu => ?_⟩
  · simp only [monthRange, hleast, hgreatest, Option.bind_eq_bind, Option.bind_some,
      Option.pure_def]
  · obtain ⟨_, hleast', hle⟩ := exists_leastOf (fun s : DateSpan => s.1.text) hu
    rw [hleast] at hleast'
    exact Option.some.inj hleast' ▸ hle
  · obtain ⟨_, hgreatest', hle⟩ := exists_greatestOf (fun s : DateSpan => s.2.text) hu
    rw [hgreatest] at hgreatest'
    exact Option.some.inj hgreatest' ▸ hle

end DateRules

end MetricSql
