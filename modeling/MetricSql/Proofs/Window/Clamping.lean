import MetricSql.Proofs.Window.Selection

namespace MetricSql

open Text Date

variable {r : DateRules} {w : Window} {a : Availability} {d e : Date}
  {d? lo? hi? start? stop? : Option Date} {dates : List Date}

theorem forall_le_text_iff (hyear : ∀ e, d? = some e → e.FourDigits) (hd : d.FourDigits) :
    (∀ s, d?.map Date.text = some s → s ≤ d.text) ↔ ∀ e, d? = some e → e ≤ d := by
  cases d? with
  | none => simp
  | some e => simp [text_le_text_iff (hyear e rfl).2 hd]

theorem forall_text_le_iff (hyear : ∀ e, d? = some e → e.FourDigits) (hd : d.FourDigits) :
    (∀ s, d?.map Date.text = some s → d.text ≤ s) ↔ ∀ e, d? = some e → d ≤ e := by
  cases d? with
  | none => simp
  | some e => simp [text_le_text_iff hd.2 (hyear e rfl)]

theorem greater_text (hd : d.FourDigits) (he : e.FourDigits) :
    greater d.text e.text = (Max.max d e).text := by
  by_cases h : d < e
  · rw [greater, if_pos ((text_lt_text_iff hd he).mpr h), max_eq_right (le_of_lt h)]
  · rw [greater, if_neg (mt (text_lt_text_iff hd he).mp h), max_eq_left (not_lt.mp h)]

theorem lesser_text (hd : d.FourDigits) (he : e.FourDigits) :
    lesser d.text e.text = (Min.min d e).text := by
  by_cases h : e < d
  · rw [lesser, if_pos ((text_lt_text_iff he hd).mpr h), min_eq_right (le_of_lt h)]
  · rw [lesser, if_neg (mt (text_lt_text_iff he hd).mp h), min_eq_left (not_lt.mp h)]

theorem Availability.Knows.admits_text_iff (h : a.Knows lo? hi?) (hd : d.FourDigits) :
    a.admits d.text = true ↔
      (∀ lo, lo? = some lo → lo ≤ d) ∧ ∀ hi, hi? = some hi → d ≤ hi := by
  rw [admits_iff, h.start, h.stop, forall_le_text_iff h.startYear hd,
    forall_text_le_iff h.stopYear hd]

/-- What a window asks for: the bounds of an interval, or the listed days, are the texts of these
days. -/
structure Window.Names (w : Window) (start? stop? : Option Date) (dates : List Date) : Prop where
  start : w.mode = .between → w.startDate = start?.map Date.text
  stop : w.mode = .between → w.endDate = stop?.map Date.text
  listed : w.mode = .list → w.dateList = dates.map Date.text
  startYear : ∀ e, start? = some e → e.FourDigits
  stopYear : ∀ e, stop? = some e → e.FourDigits
  listedYear : ∀ e ∈ dates, e.FourDigits

theorem Window.Names.asks_list_iff (h : w.Names start? stop? dates) (hmode : w.mode = .list) :
    w.Asks d.text ↔ d ∈ dates := by
  simp only [Asks, hmode, h.listed hmode]
  exact List.mem_map_of_injective Date.text_injective

theorem Window.Names.asks_between_iff (h : w.Names start? stop? dates) (hmode : w.mode = .between)
    (hd : d.FourDigits) :
    w.Asks d.text ↔ (∀ e, start? = some e → e ≤ d) ∧ ∀ e, stop? = some e → d ≤ e := by
  simp only [Asks, hmode, h.start hmode, h.stop hmode, forall_le_text_iff h.startYear hd,
    forall_text_le_iff h.stopYear hd]

namespace DateRules

theorem restrictedWhere_list (hmode : w.mode = .list) (hcol : r.column w ≠ "")
    (hnames : w.Names start? stop? dates) (hknown : a.Knows lo? hi?) :
    let kept := dates.filter fun d => lo?.all (· ≤ d) && hi?.all (d ≤ ·)
    r.restrictedWhere w a =
      some (if kept = [] then .never else .oneOf (r.column w) (kept.map Date.text)) := by
  intro kept
  have hkept : w.dateList.filter a.admits = kept.map Date.text := by
    rw [hnames.listed hmode, List.filter_map]
    refine congrArg (List.map Date.text) (List.filter_congr fun d hd => ?_)
    rw [Bool.eq_iff_iff, Function.comp_apply, hknown.admits_text_iff (hnames.listedYear d hd)]
    simp [Option.all_eq_true]
  simp only [restrictedWhere, hcol, hmode, hkept, List.map_eq_nil_iff, if_false]
  split <;> rfl

theorem bounded_between_iff (hmode : w.mode = .between) (hnames : w.Names start? stop? dates)
    (hknown : a.Knows lo? hi?) :
    w.Bounded a ↔ (start? ≠ none ∨ lo? ≠ none) ∧ (stop? ≠ none ∨ hi? ≠ none) := by
  simp [Window.Bounded, hmode, hnames.start hmode, hnames.stop hmode, hknown.start, hknown.stop]

theorem exists_laterDay (hstart : ∀ e, start? = some e → e.FourDigits)
    (hlo : ∀ e, lo? = some e → e.FourDigits) (h : start? ≠ none ∨ lo? ≠ none) :
    ∃ start : Date, start.FourDigits ∧
      laterBound (start?.map Date.text) (lo?.map Date.text) = some start.text ∧
      ∀ d, start ≤ d ↔ (∀ s, start? = some s → s ≤ d) ∧ ∀ lo, lo? = some lo → lo ≤ d := by
  cases start? with
  | none =>
    obtain ⟨lo, rfl⟩ := Option.ne_none_iff_exists'.mp (h.resolve_left fun k => k rfl)
    exact ⟨lo, hlo lo rfl, rfl, by simp⟩
  | some s =>
    cases lo? with
    | none => exact ⟨s, hstart s rfl, rfl, by simp⟩
    | some lo =>
      refine ⟨Max.max s lo, max_rec' FourDigits (hstart s rfl) (hlo lo rfl), ?_, by simp⟩
      exact congrArg some (greater_text (hstart s rfl) (hlo lo rfl))

theorem exists_earlierDay (hstop : ∀ e, stop? = some e → e.FourDigits)
    (hhi : ∀ e, hi? = some e → e.FourDigits) (h : stop? ≠ none ∨ hi? ≠ none) :
    ∃ stop : Date, stop.FourDigits ∧
      earlierBound (stop?.map Date.text) (hi?.map Date.text) = some stop.text ∧
      ∀ d, d ≤ stop ↔ (∀ e, stop? = some e → d ≤ e) ∧ ∀ hi, hi? = some hi → d ≤ hi := by
  cases stop? with
  | none =>
    obtain ⟨hi, rfl⟩ := Option.ne_none_iff_exists'.mp (h.resolve_left fun k => k rfl)
    exact ⟨hi, hhi hi rfl, rfl, by simp⟩
  | some e =>
    cases hi? with
    | none => exact ⟨e, hstop e rfl, rfl, by simp⟩
    | some hi =>
      refine ⟨Min.min e hi, min_rec' FourDigits (hstop e rfl) (hhi hi rfl), ?_, by simp⟩
      exact congrArg some (lesser_text (hstop e rfl) (hhi hi rfl))

theorem restrictedWhere_between (hmode : w.mode = .between) (hcol : r.column w ≠ "")
    (hnames : w.Names start? stop? dates) (hknown : a.Knows lo? hi?)
    (hclosed : (start? ≠ none ∨ lo? ≠ none) ∧ (stop? ≠ none ∨ hi? ≠ none)) :
    ∃ start stop : Date,
      (∀ d, start ≤ d ↔ (∀ s, start? = some s → s ≤ d) ∧ ∀ lo, lo? = some lo → lo ≤ d) ∧
      (∀ d, d ≤ stop ↔ (∀ e, stop? = some e → d ≤ e) ∧ ∀ hi, hi? = some hi → d ≤ hi) ∧
      r.restrictedWhere w a = some
        (if start ≤ stop then .between (r.column w) start.text stop.text else .never) := by
  obtain ⟨start, hstart, hlater, hfirst⟩ :=
    exists_laterDay hnames.startYear hknown.startYear hclosed.1
  obtain ⟨stop, hstop, hearlier, hlast⟩ :=
    exists_earlierDay hnames.stopYear hknown.stopYear hclosed.2
  refine ⟨start, stop, hfirst, hlast, ?_⟩
  simp only [restrictedWhere, hcol, hmode, hnames.start hmode, hnames.stop hmode, hknown.start,
    hknown.stop, hlater, hearlier, text_le_text_iff hstart.2 hstop, if_false]
  split <;> rfl

/-- Within the available days a list keeps its days, in their order and as often as they are listed,
and an interval keeps the days between the bounds it asks for, when each end has a bound that is asked
for or known. With an end that has neither, the recent window stands in for the interval, and the
bound at the other end does not count. -/
theorem clamped_window_selects (r : DateRules) (w : Window) (a : Availability)
    (start? stop? lo? hi? : Option Date) (dates : List Date) (hcol : r.column w ≠ "")
    (hnames : w.Names start? stop? dates) (hknown : a.Knows lo? hi?) :
    let col := r.column w
    ∃ p, r.restrictedWhere w a = some p ∧
      (w.mode = .list →
        (∀ row (d : Date), d.FourDigits → row col = d.text →
          (DatePredicate.Selects col p.text row ↔
            d ∈ dates ∧ (∀ lo, lo? = some lo → lo ≤ d) ∧ ∀ hi, hi? = some hi → d ≤ hi)) ∧
        let kept := dates.filter fun d => lo?.all (· ≤ d) && hi?.all (d ≤ ·)
        p = (if kept = [] then .never else .oneOf col (kept.map Date.text)) ∧
        p.text = if kept = [] then "1 = 0"
          else "(" ++ col ++ " in (" ++ ",".intercalate (kept.map fun d => literal d.text) ++
            "))") ∧
      (w.mode = .between → (start? ≠ none ∨ lo? ≠ none) ∧ (stop? ≠ none ∨ hi? ≠ none) →
        (∀ row (d : Date), d.FourDigits → row col = d.text →
          (DatePredicate.Selects col p.text row ↔
            ((∀ s, start? = some s → s ≤ d) ∧ ∀ e, stop? = some e → d ≤ e) ∧
              (∀ lo, lo? = some lo → lo ≤ d) ∧ ∀ hi, hi? = some hi → d ≤ hi)) ∧
        ∃ start stop : Date,
          (∀ d, start ≤ d ↔ (∀ s, start? = some s → s ≤ d) ∧ ∀ lo, lo? = some lo → lo ≤ d) ∧
          (∀ d, d ≤ stop ↔ (∀ e, stop? = some e → d ≤ e) ∧ ∀ hi, hi? = some hi → d ≤ hi) ∧
          p.text = if start ≤ stop
            then col ++ " >= " ++ literal start.text ++ " and " ++ col ++ " <= " ++
              literal stop.text
            else "1 = 0") ∧
      (w.mode = .between → ¬((start? ≠ none ∨ lo? ≠ none) ∧ (stop? ≠ none ∨ hi? ≠ none)) →
        r.restrictedWhere { w with mode := .recent } a = some p) := by
  intro col
  by_cases hbounded : w.Bounded a
  · obtain ⟨p, hp⟩ := restrictedWhere_isSome w a hcol
    refine ⟨p, hp, fun hmode => ⟨fun row d hd hrow => ?_, ?_⟩,
      fun hmode hclosed => ⟨fun row d hd hrow => ?_, ?_⟩, fun hmode hopen => ?_⟩
    · rw [selects_text_iff_of_bounded hcol hbounded hp hrow, hnames.asks_list_iff hmode,
        hknown.admits_text_iff hd]
    · obtain rfl := Option.some.inj (hp.symm.trans (restrictedWhere_list hmode hcol hnames hknown))
      refine ⟨rfl, ?_⟩
      split
      · rfl
      · simp only [DatePredicate.text, List.map_map]
        rfl
    · rw [selects_text_iff_of_bounded hcol hbounded hp hrow, hnames.asks_between_iff hmode hd,
        hknown.admits_text_iff hd]
    · obtain ⟨start, stop, hstart, hstop, hwhere⟩ :=
        restrictedWhere_between hmode hcol hnames hknown hclosed
      obtain rfl := Option.some.inj (hp.symm.trans hwhere)
      refine ⟨start, stop, hstart, hstop, ?_⟩
      split <;> rfl
    · exact absurd ((bounded_between_iff hmode hnames hknown).mp hbounded) hopen
  · obtain ⟨p, hp⟩ := recentWhere_isSome a hcol
    have hrecent : r.restrictedWhere { w with mode := .recent } a = r.recentWhere a w :=
      restrictedWhere_of_not_bounded (by simp [Window.Bounded])
    refine ⟨p, (restrictedWhere_of_not_bounded hbounded).trans hp,
      fun hmode => absurd (.inl hmode) hbounded, fun hmode hclosed => ?_, fun _ _ => hrecent.trans hp⟩
    exact absurd ((bounded_between_iff hmode hnames hknown).mpr hclosed) hbounded

theorem clamped_window_selects_january :
    let r : DateRules := { today := ⟨2024, 3, 15, by decide, by decide, by decide⟩ }
    let w : Window := { mode := .between, startDate := some "2024-01-15" }
    let a : Availability := { startDate := some "2024-01-10", endDate := some "2024-01-20" }
    let start : Date := ⟨2024, 1, 15, by decide, by decide, by decide⟩
    let lo : Date := ⟨2024, 1, 10, by decide, by decide, by decide⟩
    let hi : Date := ⟨2024, 1, 20, by decide, by decide, by decide⟩
    r.column w = "sys_imp_date" ∧ w.Names (some start) none [] ∧ a.Knows (some lo) (some hi) ∧
      ∃ p, r.restrictedWhere w a = some p ∧
        p.text = "sys_imp_date >= '2024-01-15' and sys_imp_date <= '2024-01-20'" ∧
        ∀ row (d : Date), d.FourDigits → row "sys_imp_date" = d.text →
          (DatePredicate.Selects "sys_imp_date" p.text row ↔ (start ≤ d ∧ lo ≤ d) ∧ d ≤ hi) := by
  intro r w a start lo hi
  have hnames : w.Names (some start) none [] :=
    { start := fun _ => by cbv
      stop := fun _ => rfl
      listed := fun h => nomatch h
      startYear := fun _ h => Option.some.inj h ▸ ⟨by decide, by decide⟩
      stopYear := fun _ h => nomatch h
      listedYear := fun _ h => nomatch h }
  have hknown : a.Knows (some lo) (some hi) :=
    { start := by cbv
      stop := by cbv
      startYear := fun _ h => Option.some.inj h ▸ ⟨by decide, by decide⟩
      stopYear := fun _ h => Option.some.inj h ▸ ⟨by decide, by decide⟩ }
  have hwhere : r.restrictedWhere w a =
      some (.between "sys_imp_date" "2024-01-15" "2024-01-20") := by decide +kernel
  obtain ⟨p, hp, -, hclosed, -⟩ :=
    clamped_window_selects r w a (some start) none (some lo) (some hi) [] (by decide) hnames hknown
  obtain rfl := Option.some.inj (hwhere.symm.trans hp)
  refine ⟨rfl, hnames, hknown, _, hp, by decide +kernel, fun row d hd hrow => ?_⟩
  refine ((hclosed rfl (by simp)).1 row d hd hrow).trans ?_
  simp [and_assoc]

/-- An interval with one end is replaced where nothing is known of the other end: the recent window
reaches back before a start that was asked for, and beyond an end. -/
theorem half_open_window_leaves_request :
    let r : DateRules := { today := ⟨2024, 3, 15, by decide, by decide, by decide⟩ }
    let since : Window := { mode := .between, startDate := some "2024-03-10", unit := 7 }
    let first : Availability := { startDate := some "2024-01-01" }
    let upTo : Window := { mode := .between, endDate := some "2024-02-01" }
    let last : Availability := { endDate := some "2024-02-10" }
    (∃ p, r.restrictedWhere since first = some p ∧
      p.text = "sys_imp_date >= '2024-03-08' and sys_imp_date <= '2024-03-14'" ∧
      ∃ row, DatePredicate.Selects "sys_imp_date" p.text row ∧
        ¬"2024-03-10" ≤ row "sys_imp_date") ∧
    ∃ p, r.restrictedWhere upTo last = some p ∧
      p.text = "sys_imp_date >= '2024-02-10' and sys_imp_date <= '2024-02-10'" ∧
      ∃ row, DatePredicate.Selects "sys_imp_date" p.text row ∧
        ¬row "sys_imp_date" ≤ "2024-02-01" := by
  intro r since first upTo last
  have hsince : r.restrictedWhere since first =
      some (.between "sys_imp_date" "2024-03-08" "2024-03-14") := by decide +kernel
  have hupTo : r.restrictedWhere upTo last =
      some (.between "sys_imp_date" "2024-02-10" "2024-02-10") := by decide +kernel
  refine ⟨⟨_, hsince, by decide +kernel, fun _ => "2024-03-09", ?_, by decide⟩,
    _, hupTo, by decide +kernel, fun _ => "2024-02-10", ?_, by decide⟩
  · exact (restricted_of_restrictedWhere hsince).isAbout.selects_iff.mpr (by decide)
  · exact (restricted_of_restrictedWhere hupTo).isAbout.selects_iff.mpr (by decide)

end DateRules

end MetricSql
