import MetricSql.Proofs.Window.Reported

namespace MetricSql

open Text Date

variable {r : DateRules} {w : Window} {a : Availability} {a? : Option Availability}
  {p : DatePredicate} {bound req : Option String} {start stop s : String}

theorem Date.text_ne_empty (d : Date) : d.text ≠ "" := by
  intro h
  have hchars := congrArg String.toList h
  simp [text, chars] at hchars

theorem given?_ne_empty (h : given? bound = some s) : s ≠ "" := by
  simpa using (Option.filter_eq_some_iff.mp h).2

theorem eq_some_of_getD (h : req.getD "" = s) (hne : req = none → s ≠ "") : req = some s := by
  cases req with
  | none => exact absurd h.symm (hne rfl)
  | some t => exact congrArg some h

theorem laterBound_eq_self (h : ∀ lo, bound = some lo → lo ≤ start) :
    laterBound (some start) bound = some start := by
  cases bound with
  | none => rfl
  | some lo =>
    have hle := h lo rfl
    rw [laterBound, greater, if_neg (String.not_lt.mpr hle)]

theorem earlierBound_eq_self (h : ∀ hi, bound = some hi → stop ≤ hi) :
    earlierBound (some stop) bound = some stop := by
  cases bound with
  | none => rfl
  | some hi =>
    have hle := h hi rfl
    rw [earlierBound, lesser, if_neg (String.not_lt.mpr hle)]

theorem exists_laterBound (start : String) (bound : Option String) :
    ∃ s, laterBound (some start) bound = some s := by
  cases bound <;> exact ⟨_, rfl⟩

theorem exists_earlierBound (stop : String) (bound : Option String) :
    ∃ s, earlierBound (some stop) bound = some s := by
  cases bound <;> exact ⟨_, rfl⟩

def NothingKnown (a? : Option Availability) : Prop := ∀ a, a? = some a → a.isEmpty = true

theorem filter_of_nothingKnown (h : NothingKnown a?) : a?.filter (!·.isEmpty) = none := by
  rw [Option.filter_eq_none_iff]
  intro a ha
  simp [h a ha]

theorem nothingKnown_or (a? : Option Availability) :
    NothingKnown a? ∨ ∃ a, a? = some a ∧ a.isEmpty = false := by
  cases a? with
  | none =>
    refine .inl fun a h => ?_
    cases h
  | some a =>
    cases ha : a.isEmpty with
    | true => exact .inl fun _ h => Option.some.inj h ▸ ha
    | false => exact .inr ⟨a, rfl, ha⟩

theorem admits_of_isEmpty (h : a.isEmpty = true) (d : String) : a.admits d = true := by
  simp only [Availability.isEmpty, Bool.and_eq_true, Option.isNone_iff_eq_none] at h
  rw [Availability.admits, h.1, h.2]
  rfl

theorem admits_of_le {d e f : String} (hd : a.admits d = true) (hf : a.admits f = true)
    (hde : d ≤ e) (hef : e ≤ f) : a.admits e = true := by
  rw [Availability.admits_iff] at hd hf ⊢
  exact ⟨fun lo hlo => String.le_trans (hd.1 lo hlo) hde,
    fun hi hhi => String.le_trans hef (hf.2 hi hhi)⟩

namespace DatePredicate

/-- Whether a range is that of a condition. It has the bounds of the condition, or the first and the
last of the listed days, and is empty when no day satisfies the condition. -/
def HasRange : DatePredicate → EffectiveRange → Prop
  | between column start stop, e => e = ⟨column, start, stop⟩
  | oneOf column dates, e =>
    e.column = column ∧ e.start ∈ dates ∧ e.stop ∈ dates ∧ ∀ d ∈ dates, e.start ≤ d ∧ d ≤ e.stop
  | never, e => e = {}

def OfDays (column : String) (p : DatePredicate) : Prop :=
  p = never ∨ ∃ first last : Date, p = between column first.text last.text

theorem not_hasRange_never {column : String} (hcol : column ≠ "") :
    ¬never.HasRange ⟨column, start, stop⟩ := by
  intro h
  exact hcol (EffectiveRange.mk.inj h).1

theorem hasRange_filter_iff {column first last : String} {dates : List String}
    (hfirst : first ∈ dates) (hlast : last ∈ dates)
    (hspan : ∀ d ∈ dates, first ≤ d ∧ d ≤ last) :
    (oneOf column (dates.filter a.admits)).HasRange ⟨column, first, last⟩ ↔
      dates.filter a.admits = dates := by
  constructor
  · rintro ⟨-, hfirst', hlast', -⟩
    refine List.filter_eq_self.mpr fun d hd => ?_
    exact admits_of_le (List.mem_filter.mp hfirst').2 (List.mem_filter.mp hlast').2
      (hspan d hd).1 (hspan d hd).2
  · intro h
    rw [h]
    exact ⟨rfl, hfirst, hlast, hspan⟩

end DatePredicate

namespace DateRules

open DatePredicate

theorem dateWhere_of_known (h : a.isEmpty = false) :
    r.dateWhere w (some a) = r.restrictedWhere w a := by
  have hsome : (some a).filter (!·.isEmpty) = some a := by simp [Option.filter, h]
  rw [dateWhere, hsome]

theorem dateWhere_of_nothingKnown (h : NothingKnown a?) :
    r.dateWhere w a? =
      match w.mode with
      | .list => r.listWhere w
      | .between => r.betweenWhere w
      | .available | .recent => r.defaultRecent w := by
  rw [dateWhere, filter_of_nothingKnown h]
  cases w.mode with
  | available => rw [availableWhere, filter_of_nothingKnown h]
  | list | between | recent => rfl

theorem recentWhere_ofDays (hp : r.recentWhere a w = some p) : p.OfDays (r.column w) := by
  obtain rfl | ⟨start, stop, hrange, -, rfl⟩ := recentWhere_eq_some hp
  · exact .inl rfl
  · obtain ⟨first, last, -, rfl, rfl⟩ := recentRange_eq_some hrange
    exact .inr ⟨first, last, rfl⟩

theorem eq_between_of_ofDays {column : String} (hcol : column ≠ "") (hp : p.OfDays column)
    {start? stop? : Option String}
    (h : p.HasRange ⟨column, start?.getD "", stop?.getD ""⟩) :
    ∃ start stop, start? = some start ∧ stop? = some stop ∧ p = .between column start stop := by
  obtain rfl | ⟨first, last, rfl⟩ := hp
  · exact absurd h (not_hasRange_never hcol)
  · obtain ⟨-, hstart, hstop⟩ := EffectiveRange.mk.inj h
    exact ⟨_, _, eq_some_of_getD hstart fun _ => first.text_ne_empty,
      eq_some_of_getD hstop fun _ => last.text_ne_empty, rfl⟩

theorem dateWhere_available_ofDays (hmode : w.mode = .available) (hcol : r.column w ≠ "")
    (hp : r.dateWhere w a? = some p) : p.OfDays (r.column w) := by
  obtain hnothing | ⟨a, rfl, hknown⟩ := nothingKnown_or a?
  · rw [dateWhere_of_nothingKnown hnothing] at hp
    simp only [hmode, defaultRecent_eq hcol, Option.some.injEq] at hp
    exact .inr ⟨_, _, hp.symm⟩
  · rw [dateWhere_of_known hknown] at hp
    simp only [restrictedWhere, hcol, hmode, if_false] at hp
    exact recentWhere_ofDays hp

/-- The range of a window of available days repeats what was asked for, and is the recent window
only by chance. -/
theorem hasRange_available_iff (hmode : w.mode = .available) (hcol : r.column w ≠ "")
    (hp : r.dateWhere w a? = some p) :
    p.HasRange (r.reportedRange w a?) ↔
      ∃ start stop, w.startDate = some start ∧ w.endDate = some stop ∧
        p = .between (r.column w) start stop := by
  simp only [reportedRange, hcol, hmode, if_false]
  constructor
  · exact eq_between_of_ofDays hcol (dateWhere_available_ofDays hmode hcol hp)
  · rintro ⟨start, stop, hstart, hstop, rfl⟩
    rw [hstart, hstop]
    rfl

section Between

variable (hmode : w.mode = .between) (hcol : r.column w ≠ "")
include hmode hcol

theorem restrictedWhere_between_eq_some (hp : r.restrictedWhere w a = some p) :
    (∃ start stop, laterBound w.startDate (given? a.startDate) = some start ∧
      earlierBound w.endDate (given? a.endDate) = some stop ∧
      (start ≤ stop ∧ p = .between (r.column w) start stop ∨ ¬start ≤ stop ∧ p = .never)) ∨
    (w.startDate = none ∨ w.endDate = none) ∧ p.OfDays (r.column w) := by
  simp only [restrictedWhere, hcol, hmode, if_false] at hp
  split at hp
  · next start stop hstart hstop =>
    refine .inl ⟨start, stop, hstart, hstop, ?_⟩
    split at hp
    · next hle => exact .inl ⟨hle, (Option.some.inj hp).symm⟩
    · next hle => exact .inr ⟨hle, (Option.some.inj hp).symm⟩
  · next hnone =>
    refine .inr ⟨?_, recentWhere_ofDays hp⟩
    cases hs : w.startDate with
    | none => exact .inl rfl
    | some start =>
      cases he : w.endDate with
      | none => exact .inr rfl
      | some stop =>
        obtain ⟨start', hstart⟩ := exists_laterBound start (given? a.startDate)
        obtain ⟨stop', hstop⟩ := exists_earlierBound stop (given? a.endDate)
        exact (hnone start' stop' (hs ▸ hstart) (he ▸ hstop)).elim

theorem exists_requested_of_hasRange (hp : r.restrictedWhere w a = some p)
    (h : p.HasRange ⟨r.column w, w.startDate.getD "", w.endDate.getD ""⟩) :
    ∃ start stop, w.startDate = some start ∧ w.endDate = some stop ∧ start ≤ stop ∧
      a.admits start = true ∧ a.admits stop = true := by
  obtain ⟨start, stop, hlater, hearlier, hcases⟩ | ⟨hmissing, hdays⟩ :=
    restrictedWhere_between_eq_some hmode hcol hp
  · obtain ⟨hle, rfl⟩ | ⟨-, rfl⟩ := hcases
    · obtain ⟨-, hs, he⟩ := EffectiveRange.mk.inj h
      -- A bound that was not asked for is reported as empty. The condition would have that of the
      -- available days in its place, which is not.
      have hstart : w.startDate = some start := eq_some_of_getD hs fun hnone => by
        rw [hnone] at hlater
        exact given?_ne_empty hlater
      have hstop : w.endDate = some stop := eq_some_of_getD he fun hnone => by
        rw [hnone] at hearlier
        exact given?_ne_empty hearlier
      have hlo := ((laterBound_le_iff hlater).mp (String.le_refl start)).2
      have hhi := ((le_earlierBound_iff hearlier).mp (String.le_refl stop)).2
      refine ⟨start, stop, hstart, hstop, hle, Availability.admits_iff.mpr ⟨hlo, fun hi h => ?_⟩,
        Availability.admits_iff.mpr ⟨fun lo h => ?_, hhi⟩⟩
      · exact String.le_trans hle (hhi hi h)
      · exact String.le_trans (hlo lo h) hle
    · exact absurd h (not_hasRange_never hcol)
  · obtain ⟨start, stop, hstart, hstop, -⟩ := eq_between_of_ofDays hcol hdays h
    obtain hnone | hnone := hmissing
    · rw [hnone] at hstart
      cases hstart
    · rw [hnone] at hstop
      cases hstop

/-- The range of an interval is that of its condition exactly when availability, where there is any
known, cuts nothing off. -/
theorem hasRange_between_iff (hp : r.dateWhere w a? = some p) :
    p.HasRange (r.reportedRange w a?) ↔
      ∃ start stop, w.startDate = some start ∧ w.endDate = some stop ∧
        ∀ a, a? = some a → a.isEmpty = false →
          start ≤ stop ∧ a.admits start = true ∧ a.admits stop = true := by
  simp only [reportedRange, hcol, hmode, if_false]
  obtain hnothing | ⟨a, rfl, hknown⟩ := nothingKnown_or a?
  · rw [dateWhere_of_nothingKnown hnothing] at hp
    simp only [hmode, betweenWhere, hcol, if_false] at hp
    split at hp
    · next start stop hstart hstop =>
      obtain rfl := Option.some.inj hp
      refine iff_of_true ?_ ⟨start, stop, hstart, hstop, fun a ha hknown => ?_⟩
      · rw [hstart, hstop]
        rfl
      · rw [hnothing a ha] at hknown
        cases hknown
    · cases hp
  · rw [dateWhere_of_known hknown] at hp
    constructor
    · intro h
      obtain ⟨start, stop, hstart, hstop, hbounds⟩ := exists_requested_of_hasRange hmode hcol hp h
      exact ⟨start, stop, hstart, hstop, fun a' ha' _ => Option.some.inj ha' ▸ hbounds⟩
    · rintro ⟨start, stop, hstart, hstop, hbounds⟩
      obtain ⟨hle, hadmits, hadmits'⟩ := hbounds a rfl hknown
      have hlater := laterBound_eq_self (Availability.admits_iff.mp hadmits).1
      have hearlier := earlierBound_eq_self (Availability.admits_iff.mp hadmits').2
      simp only [restrictedWhere, hcol, hmode, hstart, hstop, hlater, hearlier, hle, if_true,
        if_false, Option.some.injEq] at hp
      rw [← hp, hstart, hstop]
      rfl

end Between

section Listed

theorem exists_extremes {dates : List String} (h : dates ≠ []) :
    ∃ first last, leastOf id dates = some first ∧ greatestOf id dates = some last ∧
      first ∈ dates ∧ last ∈ dates ∧ ∀ d ∈ dates, first ≤ d ∧ d ≤ last := by
  obtain ⟨d, hd⟩ := List.exists_mem_of_ne_nil dates h
  obtain ⟨first, hfirst, -⟩ := exists_leastOf id hd
  obtain ⟨last, hlast, -⟩ := exists_greatestOf id hd
  obtain ⟨_, hmem, rfl⟩ := leastOf_mem hfirst
  obtain ⟨_, hmem', rfl⟩ := greatestOf_mem hlast
  refine ⟨_, _, hfirst, hlast, hmem, hmem', fun d hd => ⟨?_, ?_⟩⟩
  · obtain ⟨s, hs, hle⟩ := exists_leastOf id hd
    exact Option.some.inj (hs.symm.trans hfirst) ▸ hle
  · obtain ⟨s, hs, hle⟩ := exists_greatestOf id hd
    exact Option.some.inj (hs.symm.trans hlast) ▸ hle

variable (hmode : w.mode = .list) (hcol : r.column w ≠ "")
include hmode hcol

theorem reportedRange_list (a? : Option Availability) :
    (w.dateList = [] ∧ r.reportedRange w a? = {}) ∨
      ∃ first last, r.reportedRange w a? = ⟨r.column w, first, last⟩ ∧
        first ∈ w.dateList ∧ last ∈ w.dateList ∧ ∀ d ∈ w.dateList, first ≤ d ∧ d ≤ last := by
  simp only [reportedRange, hcol, hmode, if_false]
  by_cases hnil : w.dateList = []
  · rw [hnil]
    exact .inl ⟨rfl, rfl⟩
  · obtain ⟨first, last, hfirst, hlast, hspan⟩ := exists_extremes hnil
    rw [hfirst, hlast]
    exact .inr ⟨first, last, rfl, hspan⟩

/-- The range of a list is that of its condition exactly when all listed days are available. -/
theorem hasRange_list_iff (hp : r.dateWhere w a? = some p) :
    p.HasRange (r.reportedRange w a?) ↔
      ∀ a, a? = some a → ∀ d ∈ w.dateList, a.admits d = true := by
  have hrange := reportedRange_list hmode hcol a?
  obtain hnothing | ⟨a, rfl, hknown⟩ := nothingKnown_or a?
  · rw [dateWhere_of_nothingKnown hnothing] at hp
    simp only [hmode, listWhere, hcol, false_or] at hp
    split at hp
    · cases hp
    · next hne =>
      obtain rfl := Option.some.inj hp
      obtain ⟨hnil, -⟩ | ⟨first, last, hrange, hspan⟩ := hrange
      · exact absurd hnil hne
      · rw [hrange]
        exact iff_of_true ⟨rfl, hspan⟩ fun a ha d _ => admits_of_isEmpty (hnothing a ha) d
  · rw [dateWhere_of_known hknown] at hp
    simp only [restrictedWhere, hcol, hmode, if_false] at hp
    have hall : (∀ a', some a = some a' → ∀ d ∈ w.dateList, a'.admits d = true) ↔
        w.dateList.filter a.admits = w.dateList := by
      rw [List.filter_eq_self]
      exact ⟨fun h => h a rfl, fun h a' ha' => Option.some.inj ha' ▸ h⟩
    rw [hall]
    split at hp
    · next hnone =>
      obtain rfl := Option.some.inj hp
      rw [hnone]
      obtain ⟨hnil, hrange⟩ | ⟨first, last, hrange, hfirst, -⟩ := hrange
      · rw [hrange]
        exact iff_of_true rfl hnil.symm
      · rw [hrange]
        refine iff_of_false (not_hasRange_never hcol) fun h => ?_
        exact absurd h.symm (List.ne_nil_of_mem hfirst)
    · next hsome =>
      obtain rfl := Option.some.inj hp
      obtain ⟨hnil, -⟩ | ⟨first, last, hrange, hfirst, hlast, hspan⟩ := hrange
      · rw [hnil] at hsome
        exact absurd rfl hsome
      · rw [hrange]
        exact hasRange_filter_iff hfirst hlast hspan

end Listed

/-- When the reported range of a requested window is that of its condition. Requested bounds and
listed days must all be available, where any availability is known; and a window of available days
must be given the bounds of its recent window. -/
theorem reported_requested_window (r : DateRules) (w : Window) (a? : Option Availability)
    (p : DatePredicate) (hcol : r.column w ≠ "") (hp : r.dateWhere w a? = some p) :
    (w.mode = .between → (p.HasRange (r.reportedRange w a?) ↔
      ∃ start stop, w.startDate = some start ∧ w.endDate = some stop ∧
        ∀ a, a? = some a → a.isEmpty = false →
          start ≤ stop ∧ a.admits start = true ∧ a.admits stop = true)) ∧
    (w.mode = .list → (p.HasRange (r.reportedRange w a?) ↔
      ∀ a, a? = some a → ∀ d ∈ w.dateList, a.admits d = true)) ∧
    (w.mode = .available → (p.HasRange (r.reportedRange w a?) ↔
      ∃ start stop, w.startDate = some start ∧ w.endDate = some stop ∧
        p = .between (r.column w) start stop)) :=
  ⟨fun hmode => hasRange_between_iff hmode hcol hp, fun hmode => hasRange_list_iff hmode hcol hp,
    fun hmode => hasRange_available_iff hmode hcol hp⟩

theorem reported_range_of_listed_days :
    let r : DateRules := { today := ⟨2024, 3, 15, by decide, by decide, by decide⟩ }
    let w : Window := { mode := .list, dateList := ["2024-01-15", "2024-01-12"] }
    let a : Availability := { startDate := some "2024-01-10", endDate := some "2024-01-20" }
    r.column w ≠ "" ∧
      r.dateWhere w (some a) = some (.oneOf "sys_imp_date" ["2024-01-15", "2024-01-12"]) ∧
      (DatePredicate.oneOf "sys_imp_date" ["2024-01-15", "2024-01-12"]).HasRange
        (r.reportedRange w (some a)) := by
  intro r w a
  have hwhere : r.dateWhere w (some a) =
      some (.oneOf "sys_imp_date" ["2024-01-15", "2024-01-12"]) := by decide +kernel
  have hadmits : ∀ d ∈ w.dateList, a.admits d = true := by decide +kernel
  have hreported := reported_requested_window r w (some a) _ (by decide) hwhere
  exact ⟨by decide, hwhere, (hreported.2.1 rfl).mpr fun a' ha' => Option.some.inj ha' ▸ hadmits⟩

/-- The reported range is what was asked for, also where availability has cut off a part or all of
it, or where days that are available were asked for and no bounds were given. -/
theorem reported_range_ignores_availability :
    let r : DateRules := { today := ⟨2024, 3, 15, by decide, by decide, by decide⟩ }
    let a : Availability := { startDate := some "2024-01-10", endDate := some "2024-01-20" }
    let month : Window :=
      { mode := .between, startDate := some "2024-01-01", endDate := some "2024-01-31" }
    let past : Window :=
      { mode := .between, startDate := some "2023-01-01", endDate := some "2023-01-31" }
    let listed : Window := { mode := .list, dateList := ["2024-01-05", "2024-01-12"] }
    let available : Window := { mode := .available, unit := 2 }
    (r.dateWhere month (some a) = some (.between "sys_imp_date" "2024-01-10" "2024-01-20") ∧
      r.reportedRange month (some a) = ⟨"sys_imp_date", "2024-01-01", "2024-01-31"⟩) ∧
    (r.dateWhere past (some a) = some .never ∧
      r.reportedRange past (some a) = ⟨"sys_imp_date", "2023-01-01", "2023-01-31"⟩) ∧
    (r.dateWhere listed (some a) = some (.oneOf "sys_imp_date" ["2024-01-12"]) ∧
      r.reportedRange listed (some a) = ⟨"sys_imp_date", "2024-01-05", "2024-01-12"⟩) ∧
    (r.dateWhere available none = some (.between "sys_imp_date" "2024-03-13" "2024-03-14") ∧
      r.reportedRange available none = ⟨"sys_imp_date", "", ""⟩) := by
  decide +kernel

end DateRules

end MetricSql
