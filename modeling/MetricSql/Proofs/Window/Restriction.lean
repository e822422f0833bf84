import MetricSql.Proofs.Window.Reading
import MetricSql.Proofs.Window.Recent

namespace MetricSql

open Text

variable {r : DateRules} {w : Window} {a : Availability} {bound req : Option String}
  {start stop d : String}

theorem laterBound_eq_none_iff : laterBound req bound = none ↔ req = none ∧ bound = none := by
  cases req <;> cases bound <;> simp [laterBound]

theorem earlierBound_eq_none_iff : earlierBound req bound = none ↔ req = none ∧ bound = none := by
  cases req <;> cases bound <;> simp [earlierBound]

theorem laterBound_le_iff (h : laterBound req bound = some start) :
    start ≤ d ↔ (∀ s, req = some s → s ≤ d) ∧ ∀ lo, bound = some lo → lo ≤ d := by
  cases req with
  | none =>
    obtain rfl : bound = some start := h
    simp
  | some q =>
    cases bound with
    | none =>
      obtain rfl := Option.some.inj h
      simp
    | some lo =>
      obtain rfl := Option.some.inj h
      simp [greater_le_iff]

theorem le_earlierBound_iff (h : earlierBound req bound = some stop) :
    d ≤ stop ↔ (∀ s, req = some s → d ≤ s) ∧ ∀ hi, bound = some hi → d ≤ hi := by
  cases req with
  | none =>
    obtain rfl : bound = some stop := h
    simp
  | some q =>
    cases bound with
    | none =>
      obtain rfl := Option.some.inj h
      simp
    | some hi =>
      obtain rfl := Option.some.inj h
      simp [le_lesser_iff]

theorem Availability.admits_iff : a.admits d = true ↔
    (∀ lo, given? a.startDate = some lo → lo ≤ d) ∧
      ∀ hi, given? a.endDate = some hi → d ≤ hi := by
  rw [admits, Bool.and_eq_true, Option.all_eq_true, Option.all_eq_true]
  simp only [decide_eq_true_eq]

namespace Window

def Asks (w : Window) (d : String) : Prop :=
  match w.mode with
  | .list => d ∈ w.dateList
  | .between => (∀ s, w.startDate = some s → s ≤ d) ∧ ∀ e, w.endDate = some e → d ≤ e
  | .recent | .available => True

/-- A window has days of its own: it lists them, or it is an interval with a bound at both ends, be
it asked for or that of the available days. -/
def Bounded (w : Window) (a : Availability) : Prop :=
  w.mode = .list ∨ w.mode = .between ∧
    (w.startDate ≠ none ∨ given? a.startDate ≠ none) ∧ (w.endDate ≠ none ∨ given? a.endDate ≠ none)

end Window

namespace DateRules

theorem recentWhere_isSome (a : Availability) (hcol : r.column w ≠ "") :
    ∃ p, r.recentWhere a w = some p := by
  unfold recentWhere
  dsimp only
  rw [if_neg hcol]
  split
  · split
    · exact ⟨_, rfl⟩
    · exact ⟨_, rfl⟩
  · exact ⟨_, rfl⟩

theorem recentWhere_eq_some {p : DatePredicate} (hp : r.recentWhere a w = some p) :
    p = .never ∨ ∃ start stop, r.recentRange a w = some (start, stop) ∧ start ≤ stop ∧
      p = .between (r.column w) start stop := by
  unfold recentWhere at hp
  dsimp only at hp
  split at hp
  · cases hp
  · split at hp
    · next start stop hrange =>
      split at hp
      · next hle => exact .inr ⟨start, stop, hrange, hle, (Option.some.inj hp).symm⟩
      · exact .inl (Option.some.inj hp).symm
    · exact .inl (Option.some.inj hp).symm

/-- A condition of the column that some row satisfies, or the one that none does. -/
inductive Restricted (column : String) : DatePredicate → Prop
  | never : Restricted column .never
  | between (start stop : String) (h : start ≤ stop) :
      Restricted column (.between column start stop)
  | oneOf (dates : List String) (h : dates ≠ []) : Restricted column (.oneOf column dates)

theorem Restricted.isAbout {column : String} {p : DatePredicate} (h : Restricted column p) :
    p.IsAbout column := by
  cases h with
  | never => trivial
  | between => rfl
  | oneOf dates h => exact ⟨rfl, h⟩

theorem restricted_of_recentWhere {p : DatePredicate} (hp : r.recentWhere a w = some p) :
    Restricted (r.column w) p := by
  obtain rfl | ⟨start, stop, -, hle, rfl⟩ := recentWhere_eq_some hp
  · exact .never
  · exact .between start stop hle

theorem restricted_of_restrictedWhere {p : DatePredicate} (hp : r.restrictedWhere w a = some p) :
    Restricted (r.column w) p := by
  unfold restrictedWhere at hp
  dsimp only at hp
  split at hp
  · cases hp
  · split at hp
    · split at hp
      · split at hp
        · next hle => exact Option.some.inj hp ▸ .between _ _ hle
        · exact Option.some.inj hp ▸ .never
      · exact restricted_of_recentWhere hp
    · split at hp
      · exact Option.some.inj hp ▸ .never
      · next hne => exact Option.some.inj hp ▸ .oneOf _ hne
    · exact restricted_of_recentWhere hp
    · exact restricted_of_recentWhere hp

/-- A window with days of its own selects those of them that are available, and no others. -/
theorem restrictedWhere_of_bounded (hcol : r.column w ≠ "") (h : w.Bounded a) :
    ∃ p, r.restrictedWhere w a = some p ∧ ∀ row, p.Holds row ↔
      w.Asks (row (r.column w)) ∧ a.admits (row (r.column w)) = true := by
  obtain hmode | ⟨hmode, hstart, hstop⟩ := h
  · simp only [restrictedWhere, hcol, hmode, if_false, Window.Asks]
    split
    · next hnone =>
      refine ⟨_, rfl, fun row => iff_of_false id fun ⟨hd, hadmits⟩ => ?_⟩
      exact List.not_mem_nil (hnone ▸ List.mem_filter.mpr ⟨hd, hadmits⟩)
    · exact ⟨_, rfl, fun row => List.mem_filter⟩
  · obtain ⟨start, hlater⟩ : ∃ start, laterBound w.startDate (given? a.startDate) = some start := by
      rw [← Option.ne_none_iff_exists', ne_eq, laterBound_eq_none_iff, not_and_or]
      exact hstart
    obtain ⟨stop, hearlier⟩ : ∃ stop, earlierBound w.endDate (given? a.endDate) = some stop := by
      rw [← Option.ne_none_iff_exists', ne_eq, earlierBound_eq_none_iff, not_and_or]
      exact hstop
    have hbounds (d : String) : start ≤ d ∧ d ≤ stop ↔ w.Asks d ∧ a.admits d = true := by
      simp only [Window.Asks, hmode, Availability.admits_iff, laterBound_le_iff hlater,
        le_earlierBound_iff hearlier]
      exact and_and_and_comm
    simp only [restrictedWhere, hcol, hmode, hlater, hearlier, if_false]
    split
    · exact ⟨_, rfl, fun row => hbounds (row (r.column w))⟩
    · next hle =>
      -- A day between the bounds would show that they are in order.
      refine ⟨_, rfl, fun row => iff_of_false id fun h => hle ?_⟩
      obtain ⟨hfirst, hlast⟩ := (hbounds (row (r.column w))).mpr h
      exact String.le_trans hfirst hlast

theorem selects_text_iff_of_bounded {p : DatePredicate} (hcol : r.column w ≠ "")
    (ha : w.Bounded a) (hp : r.restrictedWhere w a = some p) {row : String → String} {d : String}
    (hrow : row (r.column w) = d) :
    DatePredicate.Selects (r.column w) p.text row ↔ w.Asks d ∧ a.admits d = true := by
  obtain ⟨p', hp', hholds⟩ := restrictedWhere_of_bounded hcol ha
  obtain rfl := Option.some.inj (hp'.symm.trans hp)
  rw [(restricted_of_restrictedWhere hp).isAbout.selects_iff, hholds, hrow]

/-- Any other window, also an interval with an end that nothing bounds, is the recent one. -/
theorem restrictedWhere_of_not_bounded (h : ¬w.Bounded a) :
    r.restrictedWhere w a = r.recentWhere a w := by
  by_cases hcol : r.column w = ""
  · simp only [restrictedWhere, recentWhere, hcol, if_true]
  · cases hmode : w.mode with
    | list => exact absurd (.inl hmode) h
    | recent | available => simp only [restrictedWhere, hcol, hmode, if_false]
    | between =>
      have hopen : laterBound w.startDate (given? a.startDate) = none ∨
          earlierBound w.endDate (given? a.endDate) = none := by
        rw [laterBound_eq_none_iff, earlierBound_eq_none_iff]
        simpa only [Window.Bounded, hmode, reduceCtorEq, false_or, true_and, not_and_or, not_or,
          not_not] using h
      simp only [restrictedWhere, hcol, hmode, if_false]
      split
      · next hlater hearlier =>
        obtain hnone | hnone := hopen
        · cases hnone.symm.trans hlater
        · cases hnone.symm.trans hearlier
      · rfl

theorem restrictedWhere_isSome (w : Window) (a : Availability) (hcol : r.column w ≠ "") :
    ∃ p, r.restrictedWhere w a = some p := by
  by_cases h : w.Bounded a
  · obtain ⟨p, hp, -⟩ := restrictedWhere_of_bounded hcol h
    exact ⟨p, hp⟩
  · rw [restrictedWhere_of_not_bounded h]
    exact recentWhere_isSome a hcol

end DateRules

end MetricSql
