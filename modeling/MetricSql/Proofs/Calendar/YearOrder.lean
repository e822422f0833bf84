import MetricSql.Proofs.Calendar.TextForm

namespace MetricSql.Date

open Text

variable {a b : Date} {y z : Int}

theorem yearText_ne_nil (y : Int) : yearText y ≠ [] := by
  unfold yearText
  split
  · simp
  · split
    · exact padded_ne_nil _ _
    · simp

theorem isDigit_of_mem_tail_yearText {c : Char} (h : c ∈ (yearText y).tail) : c.isDigit = true := by
  unfold yearText at h
  split at h
  · exact isDigit_padded h
  · split at h
    · exact isDigit_padded (List.mem_of_mem_tail h)
    · exact isDigit_padded h

theorem yearText_injective : Function.Injective yearText := by
  intro y z h
  have hy := readYear_yearText y []
  rw [h, readYear_yearText] at hy
  exact (Prod.mk.inj (Option.some.inj hy)).1.symm

theorem append_left_lt_iff {s u v : List Char} : s ++ u < s ++ v ↔ u < v := by
  induction s with
  | nil => rfl
  | cons c s ih => rw [List.cons_append, List.cons_append, List.cons_lt_cons_self, ih]

theorem append_lt_append_of_lt {s t u v : List Char} (h : s < t) (ht : ∀ c ∈ t, '-' < c) :
    s ++ '-' :: u < t ++ v := by
  induction s generalizing t with
  | nil =>
    cases t with
    | nil => exact absurd h (List.not_lt_nil _)
    | cons d t => exact List.cons_lt_cons_iff.mpr (.inl (ht d List.mem_cons_self))
  | cons c s ih =>
    cases t with
    | nil => exact absurd h (List.not_lt_nil _)
    | cons d t =>
      have ht' : ∀ c ∈ t, '-' < c := fun e he => ht e (List.mem_cons_of_mem _ he)
      exact List.cons_lt_cons_iff.mpr
        ((List.cons_lt_cons_iff.mp h).imp_right (And.imp_right fun hst => ih hst ht'))

/-- A hyphen comes before all digits, so a year comes before those that its text begins. -/
theorem text_lt_of_yearText_lt (h : yearText a.year < yearText b.year) : a.text < b.text := by
  show a.text.toList < b.text.toList
  rw [text, text, String.toList_ofList, String.toList_ofList, chars, chars]
  have htail : ∀ c ∈ (yearText b.year).tail, '-' < c := fun c hc => by
    have := (toNat_digit (isDigit_of_mem_tail_yearText hc)).1
    show '-'.toNat < c.toNat
    rw [show '-'.toNat = 45 from rfl]
    omega
  obtain ⟨c, s, hs⟩ := List.exists_cons_of_ne_nil (yearText_ne_nil a.year)
  obtain ⟨d, t, ht⟩ := List.exists_cons_of_ne_nil (yearText_ne_nil b.year)
  rw [ht, List.tail_cons] at htail
  rw [hs, ht] at h ⊢
  exact List.cons_lt_cons_iff.mpr ((List.cons_lt_cons_iff.mp h).imp_right
    (And.imp_right fun hst => append_lt_append_of_lt hst htail))

theorem text_lt_text_iff_of_year_eq (h : a.year = b.year) : a.text < b.text ↔ a < b := by
  show a.text.toList < b.text.toList ↔ a < b
  rw [text, text, String.toList_ofList, String.toList_ofList, chars, chars, h,
    append_left_lt_iff, List.cons_lt_cons_self, padded_append_lt_iff, lt_iff]
  simp [h]

theorem text_lt_text_iff_yearText : a.text < b.text ↔
    yearText a.year < yearText b.year ∨ a.year = b.year ∧ a < b := by
  by_cases hyear : a.year = b.year
  · rw [text_lt_text_iff_of_year_eq hyear, hyear]
    simp
  · have hne : yearText a.year ≠ yearText b.year := fun h => hyear (yearText_injective h)
    obtain h | h := lt_or_gt_of_ne hne
    · simp [h, text_lt_of_yearText_lt h]
    · have hlt := String.lt_asymm (text_lt_of_yearText_lt h)
      simp [hyear, hlt, h.le]

theorem text_le_text_of_year_eq (hyear : a.year = b.year) (h : a ≤ b) : a.text ≤ b.text := by
  rw [← String.not_lt, text_lt_text_iff_of_year_eq hyear.symm]
  exact not_lt.mpr h

theorem yearText_neg_one_lt (h : y < -1) : yearText (-1) < yearText y := by
  have hone : padded 4 1 < padded 4 y.natAbs := by
    by_cases hn : y.natAbs < 10 ^ 4
    · have hlt := append_lt_append_iff (u := []) (v := [])
        (length_padded_eq (by decide) (by decide : 1 < 10 ^ 4) hn) (fun _ => isDigit_padded)
        fun _ => isDigit_padded
      rw [List.append_nil, List.append_nil, value_padded, value_padded] at hlt
      exact hlt.mpr (.inl (by omega))
    · have hlen : (Nat.toDigits 10 y.natAbs).length ≥ 4 := by
        by_contra hlt
        exact hn ((Nat.length_toDigits_le_iff (b := 10) (by decide) (by decide)).mp (by omega))
      have hpadded : padded 4 y.natAbs = Nat.toDigits 10 y.natAbs := by
        rw [padded, List.leftpad, Nat.sub_eq_zero_of_le hlen, List.replicate_zero, List.nil_append]
      obtain ⟨c, s, hs⟩ := List.exists_cons_of_ne_nil (padded_ne_nil 4 y.natAbs)
      have hzero : c ≠ '0' := fun hc => toDigits_head_ne_zero (n := y.natAbs) (by omega) (by
        rw [← hpadded, hs, hc]
        rfl)
      have hdigit := (toNat_digit (isDigit_padded (hs ▸ List.mem_cons_self))).1
      have hlt : '0'.toNat < c.toNat :=
        Nat.lt_of_le_of_ne hdigit fun heq => hzero (Char.toNat_inj.mp heq).symm
      rw [hs]
      exact List.cons_lt_cons_iff.mpr (.inl hlt)
  rw [yearText, if_pos (by decide), yearText, if_pos (by omega), List.cons_lt_cons_self]
  exact hone

end MetricSql.Date
