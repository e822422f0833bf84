import MetricSql.Proofs.Window.Verified

namespace MetricSql

open Text Date

/-- The texts of two conditions on the column select the same of the rows that have a day in it. -/
def SameDays (column s t : String) : Prop :=
  ∀ row (d : Date), d.FourDigits → row column = d.text →
    (DatePredicate.Selects column s row ↔ DatePredicate.Selects column t row)

theorem SameDays.holds_iff {column : String} {p q : DatePredicate}
    (h : SameDays column p.text q.text) (hp : p.IsAbout column) (hq : q.IsAbout column) {d : Date}
    (hd : d.FourDigits) : p.Holds (fun _ => d.text) ↔ q.Holds fun _ => d.text := by
  rw [← hp.selects_iff, ← hq.selects_iff]
  exact h _ d hd rfl

theorem given?_eq_of_knownDay {bound bound' : Option String} (h : KnownDay bound)
    (h' : KnownDay bound') (hday : bound.bind Date.ofText? = bound'.bind Date.ofText?) :
    given? bound = given? bound' := by
  cases hs : given? bound with
  | none =>
    rw [bind_ofText?_of_not_given hs] at hday
    cases hs' : given? bound' with
    | none => rfl
    | some s =>
      obtain ⟨e, -, -, he⟩ := h'.date hs'
      cases hday.trans he
  | some s =>
    obtain ⟨e, -, rfl, he⟩ := h.date hs
    cases hs' : given? bound' with
    | none =>
      rw [bind_ofText?_of_not_given hs', he] at hday
      cases hday
    | some t =>
      obtain ⟨f, -, rfl, hf⟩ := h'.date hs'
      obtain rfl : e = f := Option.some.inj (he.symm.trans (hday.trans hf))
      rfl

namespace DateRules

variable {r : DateRules} {w : Window} {a b : Availability}

theorem lastDay_congr (r : DateRules) (hstop : a.stop? = b.stop?) : r.lastDay a = r.lastDay b := by
  rw [lastDay, lastDay, hstop]

theorem restrictedWhere_of_given?_eq (hlo : given? a.startDate = given? b.startDate)
    (hhi : given? a.endDate = given? b.endDate) (hstart : a.start? = b.start?)
    (hstop : a.stop? = b.stop?) : r.restrictedWhere w a = r.restrictedWhere w b := by
  have hadmits : a.admits = b.admits := by
    funext d
    rw [Availability.admits, Availability.admits, hlo, hhi]
  have hrecent : r.recentWhere a w = r.recentWhere b w :=
    recentWhere_congr rfl hstart (lastDay_congr r hstop)
  simp only [restrictedWhere, hlo, hhi, hadmits, hrecent]

/-- Bounds of the available days that are read as the same days select the same days where the window
is the recent one for both, and where all of them are written as days are. Otherwise they are
compared as texts, with the days that the window asks for, and have to admit the same of these. -/
theorem same_days_iff (r : DateRules) (w : Window) (a b : Availability) (hcol : r.column w ≠ "")
    (hstart : a.start? = b.start?) (hstop : a.stop? = b.stop?) :
    let col := r.column w
    ∃ p q, r.restrictedWhere w a = some p ∧ r.restrictedWhere w b = some q ∧
      (¬w.Bounded a → ¬w.Bounded b → p = q) ∧
      (KnownDay a.startDate ∧ KnownDay a.endDate → KnownDay b.startDate ∧ KnownDay b.endDate →
        p = q) ∧
      (w.Bounded a → w.Bounded b →
        (SameDays col p.text q.text ↔ ∀ d : Date, d.FourDigits → w.Asks d.text →
          (a.admits d.text = true ↔ b.admits d.text = true))) ∧
      (w.Bounded a → ¬w.Bounded b → r.recentWhere b w = some q ∧
        (SameDays col p.text q.text ↔ ∀ row (d : Date), d.FourDigits → row col = d.text →
          (w.Asks d.text ∧ a.admits d.text = true ↔ DatePredicate.Selects col q.text row))) := by
  intro col
  obtain ⟨p, hp⟩ := restrictedWhere_isSome w a hcol
  obtain ⟨q, hq⟩ := restrictedWhere_isSome w b hcol
  have heq (h : r.restrictedWhere w a = r.restrictedWhere w b) : p = q :=
    Option.some.inj (hp.symm.trans (h.trans hq))
  have hrecent : r.recentWhere a w = r.recentWhere b w :=
    recentWhere_congr rfl hstart (lastDay_congr r hstop)
  refine ⟨p, q, hp, hq, fun ha hb => heq ?_, fun ha hb => heq ?_, fun ha hb => ⟨?_, ?_⟩,
    fun ha hb => ⟨(restrictedWhere_of_not_bounded hb).symm.trans hq, ?_⟩⟩
  · rw [restrictedWhere_of_not_bounded ha, restrictedWhere_of_not_bounded hb, hrecent]
  · exact restrictedWhere_of_given?_eq (given?_eq_of_knownDay ha.1 hb.1 hstart)
      (given?_eq_of_knownDay ha.2 hb.2 hstop) hstart hstop
  · intro hsame d hd hasks
    have hiff := hsame (fun _ => d.text) d hd rfl
    rw [selects_text_iff_of_bounded hcol ha hp rfl, selects_text_iff_of_bounded hcol hb hq rfl] at hiff
    exact (and_congr_right_iff.mp hiff) hasks
  · intro hadmits row d hd hrow
    rw [selects_text_iff_of_bounded hcol ha hp hrow, selects_text_iff_of_bounded hcol hb hq hrow]
    exact and_congr_right (hadmits d hd)
  · refine forall₄_congr fun row d hd hrow => ?_
    rw [selects_text_iff_of_bounded hcol ha hp hrow]

theorem same_days_week :
    let r : DateRules := { today := ⟨2024, 3, 15, by decide, by decide, by decide⟩ }
    let w : Window := { mode := .recent, unit := 2, period := .week }
    let a : Availability := { startDate := some " 2024-03-05" }
    let b : Availability := { startDate := some "2024-3-5", endDate := some "soon" }
    r.column w ≠ "" ∧ a.start? = b.start? ∧ a.stop? = b.stop? ∧
      ∃ p q, r.restrictedWhere w a = some p ∧ r.restrictedWhere w b = some q ∧ p = q := by
  intro r w a b
  have hstart : a.start? = b.start? := by decide +kernel
  have hstop : a.stop? = b.stop? := by decide +kernel
  have hbounded (c : Availability) : ¬w.Bounded c := by simp [Window.Bounded, w]
  obtain ⟨p, q, hp, hq, heq, -⟩ := same_days_iff r w a b (by decide) hstart hstop
  exact ⟨by decide, hstart, hstop, p, q, hp, hq, heq (hbounded a) (hbounded b)⟩

/-- A start that is no date empties an interval, though nothing is known by it. One with a blank
before it lets earlier days in, and one without its zeros takes listed days away. -/
theorem same_bounds_other_days :
    let r : DateRules := { today := ⟨2024, 3, 15, by decide, by decide, by decide⟩ }
    let month : Window :=
      { mode := .between, startDate := some "2024-01-01", endDate := some "2024-01-31" }
    let listed : Window := { mode := .list, dateList := ["2024-01-05", "2024-01-12"] }
    let noDate : Availability := { startDate := some "soon", endDate := some "2024-01-20" }
    let unknown : Availability := { endDate := some "2024-01-20" }
    let blank : Availability := { startDate := some " 2024-01-10" }
    let short : Availability := { startDate := some "2024-1-10" }
    let plain : Availability := { startDate := some "2024-01-10" }
    (noDate.start? = unknown.start? ∧ noDate.stop? = unknown.stop? ∧
      ∃ p q, r.restrictedWhere month noDate = some p ∧ r.restrictedWhere month unknown = some q ∧
        ¬SameDays "sys_imp_date" p.text q.text) ∧
    (blank.start? = plain.start? ∧ blank.stop? = plain.stop? ∧
      ∃ p q, r.restrictedWhere month blank = some p ∧ r.restrictedWhere month plain = some q ∧
        ¬SameDays "sys_imp_date" p.text q.text) ∧
    (short.start? = plain.start? ∧ short.stop? = plain.stop? ∧
      ∃ p q, r.restrictedWhere listed short = some p ∧ r.restrictedWhere listed plain = some q ∧
        ¬SameDays "sys_imp_date" p.text q.text) := by
  intro r month listed noDate unknown blank short plain
  let fifth : Date := ⟨2024, 1, 5, by decide, by decide, by decide⟩
  let twelfth : Date := ⟨2024, 1, 12, by decide, by decide, by decide⟩
  have hfifth : fifth.FourDigits := ⟨by decide, by decide⟩
  have htwelfth : twelfth.FourDigits := ⟨by decide, by decide⟩
  have hnoDate : r.restrictedWhere month noDate = some .never := by decide +kernel
  have hunknown : r.restrictedWhere month unknown =
      some (.between "sys_imp_date" "2024-01-01" "2024-01-20") := by decide +kernel
  have hblank : r.restrictedWhere month blank =
      some (.between "sys_imp_date" "2024-01-01" "2024-01-31") := by decide +kernel
  have hplain : r.restrictedWhere month plain =
      some (.between "sys_imp_date" "2024-01-10" "2024-01-31") := by decide +kernel
  have hshort : r.restrictedWhere listed short = some .never := by decide +kernel
  have hlisted : r.restrictedWhere listed plain = some (.oneOf "sys_imp_date" ["2024-01-12"]) := by
    decide +kernel
  refine ⟨⟨by decide +kernel, by decide +kernel, _, _, hnoDate, hunknown, fun hsame => ?_⟩,
    ⟨by decide +kernel, by decide +kernel, _, _, hblank, hplain, fun hsame => ?_⟩,
    ⟨by decide +kernel, by decide +kernel, _, _, hshort, hlisted, fun hsame => ?_⟩⟩
  · exact (hsame.holds_iff trivial rfl hfifth).mpr (by decide +kernel)
  · exact absurd ((hsame.holds_iff rfl rfl hfifth).mp (by decide +kernel)) (by decide +kernel)
  · exact (hsame.holds_iff trivial ⟨rfl, by decide⟩ htwelfth).mpr (by decide +kernel)

end DateRules

end MetricSql
