import MetricSql.Proofs.Calendar.TextForm
import MetricSql.Proofs.Window.Restriction

namespace MetricSql

open Text Date

variable {r : DateRules} {a : Availability} {w : Window} {p : DatePredicate} {s : String}
  {row : String → String}

theorem DatePredicate.text_ne_empty (p : DatePredicate) : p.text ≠ "" := by
  intro h
  have hlen := congrArg String.length h
  cases p <;> simp [text] at hlen

def KnownDay (bound : Option String) : Prop := ∀ s, given? bound = some s → IsDayText s

theorem knownDay_some (h : IsDayText s) : KnownDay (some s) := fun _ ht =>
  Option.some.inj (Option.filter_eq_some_iff.mp ht).1 ▸ h

theorem KnownDay.date {bound : Option String} (hb : KnownDay bound) (hs : given? bound = some s) :
    ∃ e : Date, e.FourDigits ∧ e.text = s ∧ bound.bind Date.ofText? = some e := by
  obtain ⟨e, he, rfl⟩ := hb s hs
  have hbound : bound = some e.text := (Option.filter_eq_some_iff.mp hs).1
  exact ⟨e, he, rfl, by rw [hbound, Option.bind_some, ofText?_text]⟩

theorem bind_ofText?_of_not_given {bound : Option String} (h : given? bound = none) :
    bound.bind Date.ofText? = none := by
  cases bound with
  | none => rfl
  | some s =>
    have hs : s = "" := by simpa [given?, Option.filter] using h
    subst hs
    decide

theorem KnownDay.fourDigits {bound : Option String} {e : Date} (hb : KnownDay bound)
    (he : bound.bind Date.ofText? = some e) : e.FourDigits := by
  cases hs : given? bound with
  | none => simp [bind_ofText?_of_not_given hs] at he
  | some s =>
    obtain ⟨f, hf, -, hbound⟩ := hb.date hs
    obtain rfl : e = f := Option.some.inj (he.symm.trans hbound)
    exact hf

namespace DateRules

theorem lastDay_year_le (htoday : r.today.year ≤ 9999) (hstop : KnownDay a.endDate) :
    (r.lastDay a).year ≤ 9999 := by
  unfold lastDay
  cases h : a.stop? with
  | none => exact (year_le_of_le (r.today.minusDays_le 1)).trans htoday
  | some e => exact (hstop.fourDigits h).2

/-- The recent window keeps to the availability: its first day is not before the known start, its
last day not after the known end, and texts of days are ordered as the days. -/
theorem admits_of_recentWhere (htoday : r.today.year ≤ 9999) (hstart : KnownDay a.startDate)
    (hstop : KnownDay a.endDate) (hp : r.recentWhere a w = some p) (h : p.Holds row) :
    a.admits (row (r.column w)) = true := by
  obtain rfl | ⟨start, stop, hrange, -, rfl⟩ := recentWhere_eq_some hp
  · cases h
  · obtain ⟨first, last, hb, rfl, rfl⟩ := recentRange_eq_some hrange
    obtain ⟨hfirst, hlast⟩ := h
    refine Availability.admits_iff.mpr ⟨fun lo hlo => ?_, fun hi hhi => ?_⟩
    · obtain ⟨e, he, rfl, hbound⟩ := hstart.date hlo
      have hle := hb.start e hbound
      have hyear : first.year ≤ 9999 := by
        obtain k | k := hb.first
        · exact (year_le_of_le k).trans (lastDay_year_le htoday hstop)
        · exact (hstart.fourDigits k).2
      exact String.le_trans (text_le_text hle ⟨he.1.trans (year_le_of_le hle), hyear⟩) hfirst
    · obtain ⟨e, he, rfl, hbound⟩ := hstop.date hhi
      have hday : r.lastDay a = e := by
        rw [lastDay, show a.stop? = some e from hbound, Option.getD_some]
      exact String.le_trans hlast (text_le_text (hday ▸ hb.last) he)

theorem restrictedWhere_admits (hcol : r.column w ≠ "") (htoday : r.today.year ≤ 9999)
    (hstart : KnownDay a.startDate) (hstop : KnownDay a.endDate) :
    ∃ p, r.restrictedWhere w a = some p ∧
      ∀ row, p.Holds row → a.admits (row (r.column w)) = true := by
  by_cases hbounded : w.Bounded a
  · obtain ⟨p, hp, hholds⟩ := restrictedWhere_of_bounded hcol hbounded
    exact ⟨p, hp, fun row hrow => ((hholds row).mp hrow).2⟩
  · obtain ⟨p, hp⟩ := recentWhere_isSome a hcol
    rw [restrictedWhere_of_not_bounded hbounded]
    exact ⟨p, hp, fun row => admits_of_recentWhere htoday hstart hstop hp⟩

/-- The condition of a window never reaches past the available days. With any mode, period, unit
and requested dates there is a condition on the date column. The dates that it is written with lie
within the known bounds, and so do those of the rows that its text selects. -/
theorem dateWhere_keeps_to_availability (r : DateRules) (w : Window) (a : Availability)
    (hcol : r.column w ≠ "") (htoday : r.today.year ≤ 9999)
    (hknown : a.isEmpty = false) (hstart : KnownDay a.startDate) (hstop : KnownDay a.endDate) :
    let col := r.column w
    let within (d : String) : Prop :=
      (∀ lo, given? a.startDate = some lo → lo ≤ d) ∧ ∀ hi, given? a.endDate = some hi → d ≤ hi
    ∃ p, r.dateWhere w (some a) = some p ∧ p.text ≠ "" ∧
      (p.text = "1 = 0" ∨
        (∃ start stop, within start ∧ within stop ∧
          p.text = col ++ " >= " ++ literal start ++ " and " ++ col ++ " <= " ++ literal stop) ∨
        ∃ dates, dates ≠ [] ∧ (∀ d ∈ dates, within d) ∧
          p.text = "(" ++ col ++ " in (" ++ ",".intercalate (dates.map literal) ++ "))") ∧
      ∀ row, DatePredicate.Selects col p.text row → within (row col) := by
  intro col within
  obtain ⟨p, hp, hadmits⟩ := restrictedWhere_admits hcol htoday hstart hstop
  have hkept : (some a).filter (!·.isEmpty) = some a := by simp [Option.filter, hknown]
  have hwhere : r.dateWhere w (some a) = some p := by rw [dateWhere, hkept]; exact hp
  have hrestricted := restricted_of_restrictedWhere hp
  have hwithin (row) (hrow : p.Holds row) : within (row col) :=
    Availability.admits_iff.mp (hadmits row hrow)
  refine ⟨p, hwhere, p.text_ne_empty, ?_, fun row hrow =>
    hwithin row (hrestricted.isAbout.selects_iff.mp hrow)⟩
  -- A date in the text is that of a row which the condition holds for.
  cases hrestricted with
  | never => exact .inl rfl
  | between start stop hle =>
    exact .inr (.inl ⟨start, stop, hwithin (fun _ => start) ⟨String.le_refl _, hle⟩,
      hwithin (fun _ => stop) ⟨hle, String.le_refl _⟩, rfl⟩)
  | oneOf dates hne => exact .inr (.inr ⟨dates, hne, fun d => hwithin fun _ => d, rfl⟩)

theorem dateWhere_keeps_to_march :
    let r : DateRules := { today := ⟨2024, 3, 15, by decide, by decide, by decide⟩ }
    let w : Window := { mode := .recent, unit := 40, period := .month }
    let a : Availability := { startDate := some "2024-02-29", endDate := some "2024-03-10" }
    r.column w = "sys_imp_month" ∧ r.today.year ≤ 9999 ∧ a.isEmpty = false ∧
      KnownDay a.startDate ∧ KnownDay a.endDate ∧ ∃ p, r.dateWhere w (some a) = some p ∧
        p.text = "sys_imp_month >= '2024-02-29' and sys_imp_month <= '2024-03-10'" ∧
        ∀ row, DatePredicate.Selects "sys_imp_month" p.text row →
          "2024-02-29" ≤ row "sys_imp_month" ∧ row "sys_imp_month" ≤ "2024-03-10" := by
  intro r w a
  have hstart : KnownDay a.startDate := knownDay_some
    ⟨⟨2024, 2, 29, by decide, by decide, by decide⟩, ⟨by decide, by decide⟩, by cbv⟩
  have hstop : KnownDay a.endDate := knownDay_some
    ⟨⟨2024, 3, 10, by decide, by decide, by decide⟩, ⟨by decide, by decide⟩, by cbv⟩
  obtain ⟨p, hp, -, -, hselects⟩ :=
    dateWhere_keeps_to_availability r w a (by decide) (by decide) (by decide) hstart hstop
  have hwhere : r.dateWhere w (some a) =
      some (.between "sys_imp_month" "2024-02-29" "2024-03-10") := by decide +kernel
  obtain rfl := Option.some.inj (hwhere.symm.trans hp)
  refine ⟨rfl, by decide, by decide, hstart, hstop, _, hp, by decide +kernel, fun row hrow => ?_⟩
  obtain ⟨hlo, hhi⟩ := hselects row hrow
  exact ⟨hlo _ (by decide), hhi _ (by decide)⟩

end DateRules

end MetricSql
