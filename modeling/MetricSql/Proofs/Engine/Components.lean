import MetricSql.Proofs.Engine.VersionOrder
import MetricSql.Proofs.Text.Trim

namespace MetricSql.Version

open Text

variable {x y : String} {s : List Char}

theorem compareComponents_append (l m n : List Nat) :
    compareComponents (l ++ m) (l ++ n) = compareComponents m n := by
  induction l with
  | nil => rfl
  | cons i l ih =>
    have hi : Ord.compare i i = .eq := Nat.compare_eq_eq.2 rfl
    rw [List.cons_append, List.cons_append, compareComponents, ih, hi]
    rfl

/-- Behind the same beginning, the components at one place are compared first, and then what
follows them. -/
theorem compareTexts_place (hx : '.' ∉ x.toList) (hy : '.' ∉ y.toList) (p s t : String) :
    compareTexts (p ++ "." ++ x ++ "." ++ s) (p ++ "." ++ y ++ "." ++ t) =
      (Ord.compare (leadingNumber x.toList) (leadingNumber y.toList)).then (compareTexts s t) := by
  rw [compareTexts, compare, components_append_dot, components_append_dot p, components_single hx,
    components_append_dot, components_append_dot p, components_single hy, List.append_assoc,
    List.append_assoc, compareComponents_append, List.singleton_append, List.singleton_append,
    compareComponents]
  rfl

theorem dot_notMem_of_digits (hs : ∀ c ∈ s, c.isDigit = true) : '.' ∉ s := fun hdot =>
  absurd (hs '.' hdot) (by decide)

theorem leadingNumber_of_digits (hs : ∀ c ∈ s, c.isDigit = true) : leadingNumber s =
    if Nat.ofDigitChars 10 s 0 ≤ componentLimit then Nat.ofDigitChars 10 s 0 else 0 := by
  have htrim : trim s = s := trim_of_forall fun c hc => isBlank_of_isDigit (hs c hc)
  rw [leadingNumber, htrim, List.takeWhile_eq_self_iff.2 hs]

def IsNumeral (x : String) : Prop := ∀ c ∈ x.toList, c.isDigit = true

def number (x : String) : Nat := Nat.ofDigitChars 10 x.toList 0

theorem IsNumeral.dot_notMem (hx : IsNumeral x) : '.' ∉ x.toList := dot_notMem_of_digits hx

theorem IsNumeral.leadingNumber_eq (hx : IsNumeral x) :
    leadingNumber x.toList = if number x ≤ componentLimit then number x else 0 :=
  leadingNumber_of_digits hx

theorem IsNumeral.leadingNumber_eq_number_iff (hx : IsNumeral x) :
    leadingNumber x.toList = number x ↔ number x ≤ componentLimit := by
  rw [hx.leadingNumber_eq]
  split
  · next hle => exact iff_of_true rfl hle
  · next hgt =>
    refine iff_of_false (fun hzero => hgt ?_) hgt
    rw [← hzero]
    exact Nat.zero_le _

theorem IsNumeral.leadingNumber_eq_zero_iff (hx : IsNumeral x) :
    leadingNumber x.toList = 0 ↔ number x = 0 ∨ componentLimit < number x := by
  rw [hx.leadingNumber_eq]
  split <;> omega

theorem compareTexts_of_le_limit (hx : IsNumeral x) (hy : IsNumeral y) (hlt : number x < number y)
    (hle : number y ≤ componentLimit) (p s t : String) :
    compareTexts (p ++ "." ++ x ++ "." ++ s) (p ++ "." ++ y ++ "." ++ t) = .lt := by
  have hcmp : Ord.compare (leadingNumber x.toList) (leadingNumber y.toList) = .lt := by
    rw [hx.leadingNumber_eq_number_iff.2 (hlt.le.trans hle), hy.leadingNumber_eq_number_iff.2 hle]
    exact Nat.compare_eq_lt.2 hlt
  rw [compareTexts_place hx.dot_notMem hy.dot_notMem, hcmp]
  rfl

theorem compareTexts_of_limit_lt (hx : IsNumeral x) (hy : IsNumeral y)
    (hgt : componentLimit < number y) (p s t : String) :
    compareTexts (p ++ "." ++ x ++ "." ++ s) (p ++ "." ++ y ++ "." ++ t) =
      if number x = 0 ∨ componentLimit < number x then compareTexts s t else .gt := by
  rw [compareTexts_place hx.dot_notMem hy.dot_notMem, hy.leadingNumber_eq_zero_iff.2 (.inr hgt)]
  split
  · next hzero =>
    rw [hx.leadingNumber_eq_zero_iff.2 hzero]
    rfl
  · next hne =>
    have hpos : 0 < leadingNumber x.toList :=
      Nat.pos_of_ne_zero fun hzero => hne (hx.leadingNumber_eq_zero_iff.1 hzero)
    rw [Nat.compare_eq_gt.2 hpos]
    rfl

/-- Numbers at one place decide between two versions as numbers exactly if the larger one is not
above the limit, which is when it is read as it is. Above the limit it counts as zero. -/
theorem numbers_in_order_iff (x y : String) (hx : IsNumeral x) (hy : IsNumeral y)
    (hlt : number x < number y) :
    ((∀ p s t, compareTexts (p ++ "." ++ x ++ "." ++ s) (p ++ "." ++ y ++ "." ++ t) = .lt) ↔
        number y ≤ componentLimit) ∧
      (leadingNumber y.toList = number y ↔ number y ≤ componentLimit) ∧
      (componentLimit < number y → ∀ p s t,
        compareTexts (p ++ "." ++ x ++ "." ++ s) (p ++ "." ++ y ++ "." ++ t) =
          if number x = 0 ∨ componentLimit < number x then compareTexts s t else .gt) := by
  refine ⟨⟨fun h => ?_, compareTexts_of_le_limit hx hy hlt⟩, hy.leadingNumber_eq_number_iff,
    compareTexts_of_limit_lt hx hy⟩
  by_contra hgt
  have hlaw := h "" "" ""
  rw [compareTexts_of_limit_lt hx hy (Nat.lt_of_not_le hgt)] at hlaw
  split at hlaw
  · rw [(compareTexts_compares "" "").eq_eq.2 rfl] at hlaw
    cases hlaw
  · cases hlaw

theorem numbers_in_order_iff_nightly :
    IsNumeral "007" ∧ IsNumeral "18446744073709551615" ∧
      number "007" < number "18446744073709551615" ∧
      number "18446744073709551615" ≤ componentLimit ∧
      compareTexts "20.007.9" "20.18446744073709551615.lts" = .lt := by
  have hx : IsNumeral "007" := by simp [IsNumeral]
  have hy : IsNumeral "18446744073709551615" := by simp [IsNumeral]
  have hlt : number "007" < number "18446744073709551615" := by decide +kernel
  have hle : number "18446744073709551615" ≤ componentLimit := by decide +kernel
  obtain ⟨horder, -⟩ := numbers_in_order_iff "007" "18446744073709551615" hx hy hlt
  exact ⟨hx, hy, hlt, hle, horder.2 hle "20" "9" "lts"⟩

/-- A number just above the limit comes before a small one. -/
theorem larger_number_comes_first :
    IsNumeral "3" ∧ IsNumeral "18446744073709551616" ∧
      number "3" < number "18446744073709551616" ∧
      compareTexts "20.3.0" "20.18446744073709551616.0" = .gt := by
  have hsmall : ofText "20.3.0" = ⟨[20, 3, 0]⟩ := by decide +kernel
  have hlarge : ofText "20.18446744073709551616.0" = ⟨[20, 0, 0]⟩ := by decide +kernel
  refine ⟨by simp [IsNumeral], by simp [IsNumeral], by decide +kernel, ?_⟩
  rw [compareTexts, hsmall, hlarge]
  cbv

end MetricSql.Version
