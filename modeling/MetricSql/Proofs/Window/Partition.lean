import MetricSql.Proofs.Window.Selection

namespace MetricSql

open Date

namespace DateSpan

variable {a b n : Int} {l : List DateSpan}

def ofTexts? (t : String × String) : Option DateSpan := do
  return (← ofText? t.1, ← ofText? t.2)

theorem ofTexts?_texts (s : DateSpan) : ofTexts? s.texts = some s := by
  simp only [ofTexts?, texts, ofText?_text, Option.bind_eq_bind, Option.bind_some, Option.pure_def]

theorem Tiles.le (h : Tiles a l b) : a ≤ b := by
  induction l generalizing a with
  | nil => exact Int.le_of_eq h
  | cons s l ih =>
    obtain ⟨rfl, hordered, hrest⟩ := h
    have hordered : s.1.dayNumber ≤ s.2.dayNumber := hordered
    have hle := ih hrest
    omega

theorem Tiles.exists_mem_iff (h : Tiles a l b) :
    (∃ s ∈ l, s.1.dayNumber ≤ n ∧ n ≤ s.2.dayNumber) ↔ a ≤ n ∧ n < b := by
  induction l generalizing a with
  | nil =>
    obtain rfl : a = b := h
    simp
  | cons s l ih =>
    obtain ⟨rfl, hordered, hrest⟩ := h
    have hordered : s.1.dayNumber ≤ s.2.dayNumber := hordered
    have hle := hrest.le
    rw [List.exists_mem_cons_iff, ih hrest]
    omega

theorem Tiles.isChain (h : Tiles a l b) :
    l.IsChain fun s t => t.1.dayNumber = s.2.dayNumber + 1 := by
  induction l generalizing a with
  | nil => exact .nil
  | cons s l ih =>
    obtain ⟨-, -, hrest⟩ := h
    cases l with
    | nil => exact .singleton s
    | cons t l => exact .cons_cons hrest.1 (ih hrest)

theorem Tiles.pairwise (h : Tiles a l b) : l.Pairwise fun s t => s.2 < t.1 := by
  induction l generalizing a with
  | nil => exact .nil
  | cons s l ih =>
    obtain ⟨-, -, hrest⟩ := h
    refine .cons (fun t ht => ?_) (ih hrest)
    exact Int.lt_of_add_one_le (hrest.bounds t ht).1

end DateSpan

namespace DateRules

variable {r : DateRules} {a : Availability} {w : Window} {d : Date}

theorem recentMonths_sameMonth : ∀ s ∈ r.recentMonths a w, s.1.monthNumber = s.2.monthNumber := by
  refine forall_mem_monthSpans (fun start h => ?_) _ _ (by simp)
  have hfirst : start.monthNumber ≤ (start.clampTo a.start?).monthNumber :=
    monthNumber_le_of_le (clampTo_le_iff.mp le_rfl).1
  have hlast : (start.lastOfMonth.min (r.lastDay a)).monthNumber ≤ start.monthNumber :=
    monthNumber_le_of_le (e := start.lastOfMonth) (min_le_left _ _)
  exact le_antisymm (monthNumber_le_of_le h) (hlast.trans hfirst)

theorem length_recentMonths_le : (r.recentMonths a w).length ≤ (r.recentUnit w).toNat :=
  length_monthSpans_le _ _

/-- The known start does not come after the last day, and the spans tile the window, or it does and
there are none. -/
theorem recentMonths_cases (r : DateRules) (a : Availability) (w : Window) :
    ((∀ lo, a.start? = some lo → lo ≤ r.lastDay a) ∧
      DateSpan.Tiles ((r.recentSpan a w .month).1).dayNumber (r.recentMonths a w)
        ((r.lastDay a).dayNumber + 1)) ∨
    ∃ lo, a.start? = some lo ∧ r.lastDay a < lo ∧ r.recentMonths a w = [] := by
  by_cases hlate : ∃ lo, a.start? = some lo ∧ r.lastDay a < lo
  · obtain ⟨lo, hlo, hlt⟩ := hlate
    exact .inr ⟨lo, hlo, hlt, recentMonths_eq_nil hlo hlt⟩
  · have hle (lo) (hlo : a.start? = some lo) : lo ≤ r.lastDay a :=
      not_lt.mp fun hlt => hlate ⟨lo, hlo, hlt⟩
    exact .inl ⟨hle, recentMonths_tiles hle⟩

theorem recentMonths_eq_nil_iff :
    r.recentMonths a w = [] ↔ ∃ lo, a.start? = some lo ∧ r.lastDay a < lo := by
  obtain ⟨hle, htiles⟩ | ⟨lo, hlo, hlt, hnil⟩ := recentMonths_cases r a w
  · refine iff_of_false (fun hnil => ?_) fun ⟨lo, hlo, hlt⟩ => not_lt.mpr (hle lo hlo) hlt
    have hspan := Int.lt_add_one_of_le (recentSpan_le (w := w) hle .month)
    obtain ⟨s, hs, -⟩ := htiles.exists_first hspan
    rw [hnil] at hs
    cases hs
  · exact iff_of_true hnil ⟨lo, hlo, hlt⟩

theorem exists_mem_recentMonths_iff :
    (∃ s ∈ r.recentMonths a w, s.1 ≤ d ∧ d ≤ s.2) ↔
      Period.month.windowStart (r.lastDay a) (r.recentUnit w) ≤ d ∧
        (∀ lo, a.start? = some lo → lo ≤ d) ∧ d ≤ r.lastDay a := by
  obtain ⟨-, htiles⟩ | ⟨lo, hlo, hlt, hnil⟩ := recentMonths_cases r a w
  · rw [← and_assoc, ← clampTo_le_iff]
    exact htiles.exists_mem_iff.trans (and_congr_right fun _ => Int.lt_add_one_iff)
  · rw [hnil]
    refine iff_of_false (by simp) fun ⟨_, hstart, hstop⟩ => ?_
    exact absurd (hstart lo hlo) (not_le.mpr (lt_of_le_of_lt hstop hlt))

/-- A window of months is written as the texts of spans that follow one another without a gap, each
of them in a month of its own. There are none when the known start comes after the last day.
Otherwise they hold the days from the start of the window, or from the known one if it is later, to
the last day, and no month that ends before the known start has a span. -/
theorem month_spans_partition (r : DateRules) (a : Availability) (w : Window) :
    ∃ spans : List DateSpan,
      ((r.recentMonths a w).map DateSpan.texts).map DateSpan.ofTexts? = spans.map some ∧
      spans.Pairwise (fun s t => s.2 < t.1) ∧
      spans.IsChain (fun s t => t.1.dayNumber = s.2.dayNumber + 1) ∧
      (∀ s ∈ spans, s.1 ≤ s.2 ∧ s.1.year = s.2.year ∧ s.1.month = s.2.month) ∧
      (spans = [] ↔ ∃ lo, a.start? = some lo ∧ r.lastDay a < lo) ∧
      (∀ d : Date, (∃ s ∈ spans, s.1 ≤ d ∧ d ≤ s.2) ↔
        Period.month.windowStart (r.lastDay a) (r.recentUnit w) ≤ d ∧
          (∀ lo, a.start? = some lo → lo ≤ d) ∧ d ≤ r.lastDay a) ∧
      spans.length ≤ (r.recentUnit w).toNat ∧
      ∀ s ∈ spans, ∀ lo, a.start? = some lo → lo ≤ s.1.lastOfMonth := by
  have htiles : ∃ first last, DateSpan.Tiles first (r.recentMonths a w) last := by
    obtain ⟨-, htiles⟩ | ⟨-, -, -, hnil⟩ := recentMonths_cases r a w
    · exact ⟨_, _, htiles⟩
    · exact ⟨0, 0, by rw [hnil]; rfl⟩
  obtain ⟨first, last, htiles⟩ := htiles
  refine ⟨r.recentMonths a w, ?_, htiles.pairwise, htiles.isChain, fun s hs => ?_,
    recentMonths_eq_nil_iff, fun d => exists_mem_recentMonths_iff, length_recentMonths_le,
    fun s hs lo hlo => ?_⟩
  · rw [List.map_map]
    exact List.map_congr_left fun s _ => s.ofTexts?_texts
  · exact ⟨(recentMonths_within s hs).ordered, eq_of_monthNumber_eq (recentMonths_sameMonth s hs)⟩
  · exact ((recentMonths_within s hs).start lo hlo).trans s.1.le_lastOfMonth

example :
    let r : DateRules := { today := ⟨2024, 3, 15, by decide, by decide, by decide⟩ }
    let w : Window := { mode := .recent, unit := 3, period := .month }
    let a : Availability := { startDate := some "2023-12-15", endDate := some "2024-02-10" }
    (r.recentMonths a w).map DateSpan.texts =
      [("2023-12-15", "2023-12-31"), ("2024-01-01", "2024-01-31"), ("2024-02-01", "2024-02-10")] := by
  decide +kernel

end DateRules

end MetricSql
