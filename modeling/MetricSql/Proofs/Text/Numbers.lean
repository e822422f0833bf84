import MetricSql.Proofs.Arithmetic.Lexing
import MetricSql.Query.Clause

namespace MetricSql.Text

open Expr.Arithmetic

variable {s : List Char} {c : Char}

def IsSigned (s : List Char) : Prop :=
  ∃ sign r, (sign = [] ∨ sign = ['+'] ∨ sign = ['-']) ∧ s = sign ++ r ∧ isDecimal r = true

theorem exists_sign (s : List Char) :
    ∃ sign, (sign = [] ∨ sign = ['+'] ∨ sign = ['-']) ∧ s = sign ++ dropSign s := by
  unfold dropSign
  split
  · exact ⟨['+'], .inr (.inl rfl), rfl⟩
  · exact ⟨['-'], .inr (.inr rfl), rfl⟩
  · exact ⟨[], .inl rfl, rfl⟩

theorem dropSign_of_isDecimal {sign : List Char} (hsign : sign = [] ∨ sign = ['+'] ∨ sign = ['-'])
    (hs : isDecimal s = true) : dropSign (sign ++ s) = s := by
  obtain rfl | rfl | rfl := hsign
  · rw [List.nil_append, dropSign]
    · rintro r rfl
      exact absurd (isDecimal_char hs List.mem_cons_self) (by decide)
    · rintro r rfl
      exact absurd (isDecimal_char hs List.mem_cons_self) (by decide)
  · rfl
  · rfl

theorem isAlpha_of_isDecimal (hs : isDecimal s = true) (hc : c ∈ s) : c.isAlpha = false := by
  obtain h | rfl := isDecimal_char hs hc
  · rw [← Bool.not_eq_true]
    intro halpha
    have hstart := isDigit_of_isWordStart (c := c) (by simp [Expr.isWordStart, halpha])
    rw [h] at hstart
    cases hstart
  · rfl

theorem exists_letter_of_word (h : numberWords.contains (String.ofList (foldCase s)) = true) :
    ∃ c ∈ s, c.isAlpha = true := by
  have hwords : ∀ w ∈ numberWords, ∃ c r, w.toList = c :: r ∧ c.isAlpha = true := by
    simp [numberWords]
  obtain ⟨c, r, hw, hc⟩ := hwords _ (List.contains_iff_mem.1 h)
  rw [String.toList_ofList] at hw
  obtain ⟨a, t, rfl, rfl, -⟩ := List.map_eq_cons_iff.1 hw
  exact ⟨a, List.mem_cons_self, by rwa [Char.isAlpha_toLower_eq_isAlpha] at hc⟩

theorem isExponent_iff (h : ∀ c ∈ s, c.isAlpha = false) : isExponent s = true ↔ s = [] := by
  cases s with
  | nil => simp [isExponent]
  | cons c r =>
    have hc : c.toLower ≠ 'e' := fun heq => by
      have halpha := h c List.mem_cons_self
      rw [← Char.isAlpha_toLower_eq_isAlpha, heq] at halpha
      cases halpha
    simp [isExponent, hc]

theorem isDecimal_append {whole : List Char} (h : ∀ c ∈ whole, c.isDigit = true) :
    isDecimal (whole ++ s) = true ↔
      (whole ≠ [] ∨ ∃ c ∈ s, c.isDigit = true) ∧ (∀ c ∈ s, c.isDigit = true ∨ c = '.') ∧
        s.count '.' ≤ 1 := by
  have hany : (∃ c ∈ whole, c.isDigit = true) ↔ whole ≠ [] :=
    ⟨fun ⟨c, hc, _⟩ => List.ne_nil_of_mem hc,
      fun hne => ⟨whole.head hne, List.head_mem hne, h _ (List.head_mem hne)⟩⟩
  have hall : ∀ c ∈ whole, c.isDigit = true ∨ c = '.' := fun c hc => .inl (h c hc)
  have hpoint : '.' ∉ whole := fun hc => absurd (h _ hc) (by decide)
  simp only [isDecimal, List.any_append, List.all_append, List.count_append, Bool.and_eq_true,
    Bool.or_eq_true, List.any_eq_true, List.all_eq_true, beq_iff_eq, decide_eq_true_eq, hany,
    List.count_eq_zero.2 hpoint, Nat.zero_add, and_assoc]
  exact and_congr_right fun _ => ⟨fun h => h.2, fun h => ⟨hall, h⟩⟩

theorem isUnsignedNumber_iff (h : ∀ c ∈ s, c.isAlpha = false) :
    isUnsignedNumber s = true ↔ isDecimal s = true := by
  have hwhole : ∀ c ∈ s.takeWhile Char.isDigit, c.isDigit = true := fun c hc =>
    List.mem_takeWhile_imp hc
  have hletters : ∀ c ∈ s.dropWhile Char.isDigit, c.isAlpha = false := fun c hc =>
    h c ((List.dropWhile_suffix _).subset hc)
  have hdecimal := isDecimal_append (s := s.dropWhile Char.isDigit) hwhole
  rw [List.takeWhile_append_dropWhile] at hdecimal
  rw [hdecimal, isUnsignedNumber]
  cases hrest : s.dropWhile Char.isDigit with
  | nil => simp [isExponent]
  | cons c r =>
    rw [hrest] at hletters
    have hdigit : c.isDigit = false := by
      simpa [hrest] using List.head?_dropWhile_not Char.isDigit s
    by_cases hc : c = '.'
    · subst hc
      have hfraction : isExponent (r.dropWhile Char.isDigit) = true ↔ ∀ c ∈ r, c.isDigit = true := by
        rw [isExponent_iff fun c hc => hletters c (.tail _ ((List.dropWhile_suffix _).subset hc)),
          List.dropWhile_eq_nil_iff]
      have hpoint : (∀ c ∈ r, c.isDigit = true) ↔
          (∀ c ∈ r, c.isDigit = true ∨ c = '.') ∧ r.count '.' + 1 ≤ 1 := by
        have hzero : r.count '.' + 1 ≤ 1 ↔ '.' ∉ r := by
          rw [← List.count_eq_zero]
          omega
        rw [hzero]
        exact ⟨fun hr => ⟨fun c hc => .inl (hr c hc), fun hc => absurd (hr _ hc) (by decide)⟩,
          fun hr c hc => (hr.1 c hc).resolve_right fun heq => hr.2 (heq ▸ hc)⟩
      have hsome : (∀ c ∈ r, c.isDigit = true) →
          ((∃ c ∈ '.' :: r, c.isDigit = true) ↔ r.takeWhile Char.isDigit ≠ []) := fun hr => by
        rw [List.takeWhile_eq_self_iff.2 hr]
        cases r with
        | nil => simp
        | cons d r => simp [hr d List.mem_cons_self]
      rw [List.count_cons_self, List.forall_mem_cons]
      simp only [Bool.and_eq_true, hfraction, or_true, true_and, ← hpoint]
      refine and_congr_left fun hr => ?_
      rw [hsome hr]
      simp
    · have hexponent := isExponent_iff hletters
      simp [hc, hdigit, hexponent]

/-- A number without letters has no exponent and is none of the words: it is a decimal one. -/
theorem isNumeric_iff : isNumeric s = true ↔ IsSigned s := by
  obtain ⟨sign, hsign, hs⟩ := exists_sign s
  constructor
  · intro h
    simp only [isNumeric, isFloat, Bool.and_eq_true, Bool.or_eq_true, Bool.not_eq_true',
      List.any_eq_false, Bool.not_eq_true] at h
    obtain ⟨⟨-, hletters⟩, hfloat⟩ := h
    have hrest : ∀ c ∈ dropSign s, c.isAlpha = false := fun c hc =>
      hletters c (hs ▸ List.mem_append_right _ hc)
    refine ⟨sign, dropSign s, hsign, hs, ?_⟩
    obtain hnumber | hword := hfloat
    · exact (isUnsignedNumber_iff hrest).1 hnumber
    · obtain ⟨c, hc, halpha⟩ := exists_letter_of_word hword
      rw [hrest c hc] at halpha
      cases halpha
  · rintro ⟨sign, r, hsign, rfl, hr⟩
    have hletters : ∀ c ∈ r, c.isAlpha = false := fun c => isAlpha_of_isDecimal hr
    have hsigns : ∀ c ∈ sign, c.isAlpha = false := by
      obtain rfl | rfl | rfl := hsign
      · exact List.forall_mem_nil _
      · exact List.forall_mem_singleton.2 rfl
      · exact List.forall_mem_singleton.2 rfl
    have hne : r ≠ [] := by
      rintro rfl
      cases hr
    have hnumber : isUnsignedNumber r = true := (isUnsignedNumber_iff hletters).2 hr
    have hany : (sign ++ r).any Char.isAlpha = false := List.any_eq_false.2 fun c hc => by
      rw [List.forall_mem_append.2 ⟨hsigns, hletters⟩ c hc]
      exact Bool.false_ne_true
    simp [isNumeric, isFloat, dropSign_of_isDecimal hsign hr, hnumber, hany, hne]

end MetricSql.Text
