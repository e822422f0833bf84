namespace MetricSql.Text

def doubleQuotes : List Char → List Char
  | [] => []
  | c :: r => if c = '\'' then '\'' :: '\'' :: doubleQuotes r else c :: doubleQuotes r

def literal (s : String) : String := String.ofList ('\'' :: (doubleQuotes s.toList ++ ['\'']))

/-- Splits a text that follows an opening quote `q` after the closing one. A doubled quote does not
close, and a text without a closing quote is taken whole. -/
def quotedSpan (q : Char) : List Char → List Char × List Char
  | [] => ([], [])
  | [c] => ([c], [])
  | c :: d :: r =>
    if c = q then
      if d = q then (c :: d :: (quotedSpan q r).1, (quotedSpan q r).2) else ([c], d :: r)
    else (c :: (quotedSpan q (d :: r)).1, (quotedSpan q (d :: r)).2)

theorem quotedSpan_append (q : Char) (s : List Char) :
    (quotedSpan q s).1 ++ (quotedSpan q s).2 = s := by
  fun_induction quotedSpan q s <;> simp_all

theorem quotedSpan_length_le (q : Char) (s : List Char) :
    (quotedSpan q s).2.length ≤ s.length := by
  have h := congrArg List.length (quotedSpan_append q s)
  simp only [List.length_append] at h
  omega

theorem quotedSpan_doubleQuotes (s : List Char) {r : List Char} (h : r.head? ≠ some '\'') :
    quotedSpan '\'' (doubleQuotes s ++ '\'' :: r) = (doubleQuotes s ++ ['\''], r) := by
  induction s with
  | nil =>
    cases r with
    | nil => rfl
    | cons d r =>
      have hd : d ≠ '\'' := fun k => h (by simp [k])
      simp [doubleQuotes, quotedSpan, hd]
  | cons c s ih =>
    by_cases hc : c = '\''
    · subst hc
      simp [doubleQuotes, quotedSpan, ih]
    · obtain ⟨d, t, hdt⟩ : ∃ d t, doubleQuotes s ++ '\'' :: r = d :: t := by
        cases hs : doubleQuotes s <;> simp
      simp only [doubleQuotes, hc, if_false, List.cons_append, hdt, quotedSpan]
      rw [← hdt, ih]

end MetricSql.Text
