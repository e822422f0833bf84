import MetricSql.Proofs.Calendar.Arithmetic
import MetricSql.Proofs.Calendar.Digits
import MetricSql.Proofs.Text.Trim
import MetricSql.Text.Order

namespace MetricSql.Date

open Text Calendar

variable {a b d : Date}

theorem make?_fields (d : Date) : make? d.year d.month d.day = some d := by
  unfold make?
  simp only [d.year_range, d.month_range, d.day_range, and_self, dite_true]

theorem month_lt (d : Date) : d.month < 10 ^ 2 := by
  have := d.month_range.2
  omega

theorem day_lt (d : Date) : d.day < 10 ^ 2 := by
  have hd := d.day_range.2
  have hle : daysInMonth d.year d.month ≤ 31 := by
    unfold daysInMonth
    split
    · split <;> omega
    · split <;> omega
  omega

/-- The years that are written with four digits and no sign. -/
def FourDigits (d : Date) : Prop := 0 ≤ d.year ∧ d.year ≤ 9999

theorem FourDigits.natAbs_lt (h : d.FourDigits) : d.year.natAbs < 10 ^ 4 := by
  unfold FourDigits at h
  omega

theorem FourDigits.chars_eq (h : d.FourDigits) :
    d.chars = padded 4 d.year.natAbs ++ '-' :: (padded 2 d.month ++ '-' :: padded 2 d.day) := by
  rw [chars, yearText, if_neg (Int.not_lt.mpr h.1), if_pos h.2]

theorem length_padded_eq {width m n : Nat} (hw : 0 < width) (hm : m < 10 ^ width)
    (hn : n < 10 ^ width) : (padded width m).length = (padded width n).length := by
  rw [length_padded hw hm, length_padded hw hn]

theorem padded_append_lt_iff :
    padded 2 a.month ++ '-' :: padded 2 a.day < padded 2 b.month ++ '-' :: padded 2 b.day ↔
      a.month < b.month ∨ a.month = b.month ∧ a.day < b.day := by
  have hday : padded 2 a.day < padded 2 b.day ↔ a.day < b.day := by
    have h := append_lt_append_iff (u := []) (v := [])
      (length_padded_eq (by decide) a.day_lt b.day_lt) (fun _ => isDigit_padded)
      fun _ => isDigit_padded
    simpa only [List.append_nil, value_padded, List.not_lt_nil, and_false, or_false] using h
  rw [append_lt_append_iff (length_padded_eq (by decide) a.month_lt b.month_lt)
    (fun _ => isDigit_padded) fun _ => isDigit_padded, List.cons_lt_cons_self, hday]
  simp only [value_padded]

theorem chars_lt_chars_iff (ha : a.FourDigits) (hb : b.FourDigits) : a.chars < b.chars ↔ a < b := by
  rw [ha.chars_eq, hb.chars_eq,
    append_lt_append_iff (length_padded_eq (by decide) ha.natAbs_lt hb.natAbs_lt)
      (fun _ => isDigit_padded) fun _ => isDigit_padded, List.cons_lt_cons_self,
    padded_append_lt_iff]
  simp only [value_padded]
  rw [lt_iff]
  unfold FourDigits at ha hb
  omega

theorem text_lt_text_iff (ha : a.FourDigits) (hb : b.FourDigits) : a.text < b.text ↔ a < b := by
  show a.text.toList < b.text.toList ↔ a < b
  rw [text, text, String.toList_ofList, String.toList_ofList, chars_lt_chars_iff ha hb]

theorem yearText_head (y : Int) : ∀ c ∈ (yearText y).head?, c = '-' ∨ c = '+' ∨ c.isDigit = true := by
  have hp : ∀ c ∈ (padded 4 y.natAbs).head?, c.isDigit = true := fun c hc =>
    isDigit_padded (List.mem_of_mem_head? hc)
  unfold yearText
  split
  · simp
  · split
    · exact fun c hc => Or.inr (Or.inr (hp c hc))
    · simp

/-- Among texts of dates, those of four-digit dates come after those of all earlier dates, with a
sign or not. -/
theorem text_le_text (h : a ≤ b) (hb : b.FourDigits) : a.text ≤ b.text := by
  by_cases ha : 0 ≤ a.year
  · have hy := year_le_of_le h
    rw [← String.not_lt, text_lt_text_iff hb ⟨ha, hy.trans hb.2⟩]
    exact not_lt.mpr h
  · have hlt : a.chars < b.chars := by
      obtain ⟨c, s, hs⟩ := List.exists_cons_of_ne_nil (padded_ne_nil 4 b.year.natAbs)
      have hc := toNat_digit (isDigit_padded (show c ∈ padded 4 b.year.natAbs by simp [hs]))
      rw [hb.chars_eq, hs, chars, yearText, if_pos (by omega), List.cons_append, List.cons_append]
      exact List.cons_lt_cons_iff.mpr (Or.inl (show '-'.toNat < c.toNat by
        rw [show '-'.toNat = 45 from rfl]
        omega))
    apply Text.ordered_of_lt
    show a.text.toList < b.text.toList
    rwa [text, text, String.toList_ofList, String.toList_ofList]

theorem text_le_text_iff (ha : a.year ≤ 9999) (hb : b.FourDigits) : a.text ≤ b.text ↔ a ≤ b := by
  refine ⟨fun h => ?_, fun h => text_le_text h hb⟩
  by_contra hlt
  have hyear := year_le_of_le (le_of_lt (not_le.mp hlt))
  exact String.not_lt.mpr h ((text_lt_text_iff hb ⟨hb.1.trans hyear, ha⟩).mpr (not_le.mp hlt))

theorem readYear_yearText (y : Int) (s : List Char) :
    readYear (yearText y ++ '-' :: s) = some (y, '-' :: s) := by
  have hread : ∀ limit, (padded 4 y.natAbs).length ≤ limit →
      readDigits limit (padded 4 y.natAbs ++ '-' :: s) = some (y.natAbs, '-' :: s) := by
    intro limit hlimit
    rw [readDigits_append (fun _ => isDigit_padded) (padded_ne_nil _ _) hlimit (by simp),
      value_padded]
  unfold yearText
  split
  · next hy =>
    have hneg : -(y.natAbs : Int) = y := by omega
    simp only [List.cons_append, readYear]
    rw [hread _ (by simp)]
    simp only [Option.map_some, hneg]
  · have hpos : (y.natAbs : Int) = y := by omega
    split
    · next hy hle =>
      have hlen : (padded 4 y.natAbs).length = 4 := length_padded (by decide) (by omega)
      obtain ⟨c, t, ht⟩ := List.exists_cons_of_ne_nil (padded_ne_nil 4 y.natAbs)
      have hc : c.isDigit = true := isDigit_padded (show c ∈ padded 4 y.natAbs by simp [ht])
      rw [readYear]
      · rw [hread 4 (Nat.le_of_eq hlen)]
        simp only [Option.map_some, hpos]
      · rintro r hr
        rw [ht, List.cons_append, List.cons.injEq] at hr
        simp [hr.1] at hc
      · rintro r hr
        rw [ht, List.cons_append, List.cons.injEq] at hr
        simp [hr.1] at hc
    · next hy hle =>
      simp only [List.cons_append, readYear]
      rw [hread _ (by simp)]
      simp only [Option.map_some, hpos]

theorem isBlank_head_chars (d : Date) : ∀ c ∈ d.chars.head?, isBlank c = false := by
  intro c hc
  have hne : yearText d.year ≠ [] := by
    unfold yearText
    split
    · simp
    · split
      · exact padded_ne_nil _ _
      · simp
  rw [chars, List.head?_append_of_ne_nil _ hne] at hc
  obtain rfl | rfl | h := yearText_head d.year c hc
  · decide
  · decide
  · exact isBlank_of_isDigit h

theorem isBlank_last_chars (d : Date) : ∀ c ∈ d.chars.getLast?, isBlank c = false := by
  intro c hc
  have hne := padded_ne_nil 2 d.day
  rw [chars, List.getLast?_append_of_ne_nil _ (by simp), List.getLast?_cons_of_ne_nil (by simp),
    List.getLast?_append_of_ne_nil _ (by simp), List.getLast?_cons_of_ne_nil hne] at hc
  exact isBlank_of_isDigit (isDigit_padded (List.mem_of_getLast? hc))

theorem trimStart_padded (width n : Nat) (r : List Char) :
    trimStart (padded width n ++ r) = padded width n ++ r := by
  refine trimStart_eq_self fun c hc => ?_
  rw [List.head?_append_of_ne_nil _ (padded_ne_nil _ _)] at hc
  exact isBlank_of_isDigit (isDigit_padded (List.mem_of_mem_head? hc))

theorem ofText?_text (d : Date) : ofText? d.text = some d := by
  have hmonth : ∀ r : List Char,
      readDigits 2 (trimStart (padded 2 d.month ++ '-' :: r)) = some (d.month, '-' :: r) := fun r => by
    rw [trimStart_padded, readDigits_padded (by decide) d.month_lt (Nat.le_refl 2) (by simp)]
  have hday : readDigits 2 (trimStart (padded 2 d.day)) = some (d.day, []) := by
    have h := trimStart_padded 2 d.day []
    rw [← List.append_nil (padded 2 d.day), h,
      readDigits_padded (by decide) d.day_lt (Nat.le_refl 2) (by simp)]
  rw [ofText?, text, String.toList_ofList, ofChars?,
    trim_eq_self (isBlank_head_chars d) (isBlank_last_chars d),
    trimStart_eq_self (isBlank_head_chars d), chars, readYear_yearText]
  simp only [Option.bind_eq_bind, Option.bind_some, readHyphen, hmonth, hday]
  exact make?_fields d

theorem ofText?_surrounded {w z : String} (hw : ∀ c ∈ w.toList, isBlank c = true)
    (hz : ∀ c ∈ z.toList, isBlank c = true) (s : String) : ofText? (w ++ s ++ z) = ofText? s := by
  rw [ofText?, String.toList_append, String.toList_append, ofChars?, trim_surrounded hw hz]
  rfl

theorem text_injective : Function.Injective text := by
  intro d e h
  have hd := ofText?_text d
  rw [h, ofText?_text] at hd
  exact (Option.some.inj hd).symm

/-- Every date is read back from its text, also between blanks, and the dates of the years 0 to 9999
are in the order of their texts. -/
theorem text_keeps_date_and_order :
    (∀ (d : Date) (w z : String), (∀ c ∈ w.toList, isBlank c = true) →
        (∀ c ∈ z.toList, isBlank c = true) → ofText? (w ++ d.text ++ z) = some d) ∧
      ∀ a b : Date, a.FourDigits → b.FourDigits → (a < b ↔ a.text < b.text) := by
  refine ⟨fun d w z hw hz => ?_, fun a b ha hb => (text_lt_text_iff ha hb).symm⟩
  rw [ofText?_surrounded hw hz, ofText?_text]

theorem text_keeps_date_and_order_earliest :
    let a : Date := ⟨999, 12, 31, by decide, by decide, by decide⟩
    let b : Date := ⟨1000, 1, 1, by decide, by decide, by decide⟩
    (∀ c ∈ "\t ".toList, isBlank c = true) ∧ (∀ c ∈ "\u3000".toList, isBlank c = true) ∧
      ofText? "\t -262143-01-01\u3000" = some earliest ∧
      a.FourDigits ∧ b.FourDigits ∧ a < b ∧ "0999-12-31" < "1000-01-01" := by
  intro a b
  have hw : ∀ c ∈ "\t ".toList, isBlank c = true := by simp [isBlank, blankRanges]
  have hz : ∀ c ∈ "\u3000".toList, isBlank c = true := by simp [isBlank, blankRanges]
  have ha : a.FourDigits := ⟨by decide, by decide⟩
  have hb : b.FourDigits := ⟨by decide, by decide⟩
  have hab : a < b := by decide
  have htext : earliest.text = "-262143-01-01" := by decide +kernel
  have hatext : a.text = "0999-12-31" := by decide +kernel
  have hbtext : b.text = "1000-01-01" := by decide +kernel
  obtain ⟨hread, horder⟩ := text_keeps_date_and_order
  have hdate := hread earliest "\t " "\u3000" hw hz
  have hlt := (horder a b ha hb).1 hab
  rw [htext] at hdate
  rw [hatext, hbtext] at hlt
  exact ⟨hw, hz, hdate, ha, hb, hab, hlt⟩

/-- A text of the form `YYYY-MM-DD` that names a day of the years 0 to 9999. -/
def IsDayText (s : String) : Prop := ∃ d : Date, d.FourDigits ∧ d.text = s

end MetricSql.Date
