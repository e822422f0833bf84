import MetricSql.Proofs.Arithmetic.Compound

namespace MetricSql.Expr.Arithmetic

open Text

def standsAlone (c : Char) : Bool :=
  !(c == '\'' || c == '"' || c == backtick || c.isDigit || isWordStart c)

theorem scan_cons {c : Char} (hc : standsAlone c = true) (s : List Char) :
    scan (c :: s) = .other c :: scan s := by
  simp only [standsAlone, Bool.not_eq_true', Bool.or_eq_false_iff, beq_eq_false_iff_ne] at hc
  obtain ⟨⟨⟨⟨hquote, hdouble⟩, hback⟩, hdigit⟩, hstart⟩ := hc
  rw [scan, if_neg (not_or.2 ⟨hquote, hdouble⟩), if_neg hback, if_neg (by simp [hdigit]),
    if_neg (by simp [hstart])]

theorem ne_quotes {c : Char} (h : isWordChar c = true) : ¬(c = '\'' ∨ c = '"') ∧ c ≠ backtick := by
  refine ⟨?_, ?_⟩
  · rintro (rfl | rfl) <;> cases h
  · rintro rfl
    cases h

theorem scan_digits {c : Char} {w s : List Char} (hc : c.isDigit = true)
    (hw : ∀ c ∈ w, isWordChar c = true) (hs : ∀ c ∈ s.head?, isWordChar c = false) :
    scan (c :: (w ++ s)) = .number (c :: w) :: scan s := by
  obtain ⟨htake, hdrop⟩ := takeWhile_run hw hs
  obtain ⟨hquote, hback⟩ := ne_quotes (isWordChar_of_isDigit hc)
  rw [scan, if_neg hquote, if_neg hback, if_pos hc, htake, hdrop]

theorem scan_name {w s : List Char} (hw : isName w = true)
    (hs : ∀ c ∈ s.head?, isWordChar c = false) : scan (w ++ s) = .word w :: scan s := by
  obtain ⟨⟨c, w, rfl, hstart⟩, hall⟩ := isName_eq_true hw
  obtain ⟨htake, hdrop⟩ := takeWhile_run (fun a ha => hall a (List.mem_cons_of_mem _ ha)) hs
  obtain ⟨hquote, hback⟩ := ne_quotes (hall c List.mem_cons_self)
  rw [List.cons_append, scan, if_neg hquote, if_neg hback,
    if_neg (by simp [isDigit_of_isWordStart hstart]), if_pos hstart, htake, hdrop]

theorem isDecimal_point {w : List Char} (h : isDecimal ('.' :: w) = true) :
    ∃ d v, w = d :: v ∧ d.isDigit = true := by
  cases w with
  | nil => exact absurd h (by decide)
  | cons d v =>
    obtain hd | rfl := isDecimal_char h (List.mem_cons_of_mem _ List.mem_cons_self)
    · exact ⟨d, v, rfl, hd⟩
    · simp [isDecimal] at h

theorem scan_number {w s : List Char} (hw : isDecimal w = true)
    (hs : ∀ c ∈ s.head?, isWordChar c = false) :
    scan (w ++ s) = .number w :: scan s ∨
      ∃ v, w = '.' :: v ∧ scan (w ++ s) = .other '.' :: .number v :: scan s := by
  have hall := Lexeme.isWordChar_number hw
  obtain ⟨c, w, rfl⟩ := List.exists_cons_of_ne_nil (Lexeme.text_ne_nil (l := .number w) hw)
  obtain hc | rfl := isDecimal_char hw List.mem_cons_self
  · exact .inl (scan_digits hc (fun a ha => hall a (List.mem_cons_of_mem _ ha)) hs)
  · obtain ⟨d, v, rfl, hd⟩ := isDecimal_point hw
    refine .inr ⟨d :: v, rfl, ?_⟩
    rw [List.cons_append, scan_cons (by decide), List.cons_append, scan_digits hd _ hs]
    exact fun a ha => hall a (List.mem_cons_of_mem _ (List.mem_cons_of_mem _ ha))

theorem scan_append {w : List Char} (hw : ∀ c ∈ w, standsAlone c = true) (s : List Char) :
    scan (w ++ s) = w.map .other ++ scan s := by
  induction w with
  | nil => rfl
  | cons c w ih =>
    rw [List.cons_append, scan_cons (hw c List.mem_cons_self),
      ih fun a ha => hw a (List.mem_cons_of_mem _ ha)]
    rfl

theorem standsAlone_of_isAsciiBlank {c : Char} (h : isAsciiBlank c = true) :
    standsAlone c = true := by
  simp only [isAsciiBlank, Bool.or_eq_true, beq_iff_eq] at h
  rcases h with (((rfl | rfl) | rfl) | rfl) | rfl <;> decide

theorem standsAlone_symbol {l : Lexeme} (hl : l ∈ symbols) : ∀ c ∈ l.text, standsAlone c = true := by
  have hall : ∀ l ∈ symbols, l.text.all standsAlone = true := by decide
  exact List.all_eq_true.1 (hall l hl)

theorem scan_lexeme {l : Lexeme} {s : List Char} (hl : l.Valid)
    (hs : ∀ c ∈ s.head?, l.goesOn c = false) :
    ∃ t r, scan (l.text ++ s) = t :: r ∧ t.isBlank = false ∧
      (opensCall (t :: r) = true ↔ l = .opening) := by
  cases l with
  | number w =>
    rw [Lexeme.text]
    obtain h | ⟨v, rfl, h⟩ := scan_number hl hs
    · rw [h]
      exact ⟨_, _, rfl, rfl, by simp [opensCall]⟩
    · rw [h]
      exact ⟨_, _, rfl, by decide, by simp [opensCall, isAsciiBlank]⟩
  | word w =>
    rw [Lexeme.text, scan_name hl hs]
    exact ⟨_, _, rfl, rfl, by simp [opensCall]⟩
  | op o =>
    rw [scan_append (standsAlone_symbol (by cases o <;> decide))]
    cases o <;> exact ⟨_, _, rfl, by decide, by simp [opensCall, isAsciiBlank]⟩
  | opening =>
    rw [scan_append (standsAlone_symbol (by decide))]
    exact ⟨_, _, rfl, by decide, by simp [opensCall, isAsciiBlank]⟩
  | closing =>
    rw [scan_append (standsAlone_symbol (by decide))]
    exact ⟨_, _, rfl, by decide, by simp [opensCall, isAsciiBlank]⟩

theorem Lexes.opensCall_scan {s : List Char} {ls : List Lexeme} (h : Lexes s ls) :
    opensCall (scan s) = true ↔ ls.head? = some .opening := by
  induction h with
  | nil => simp [scan, opensCall]
  | blank hc _ ih => rw [scan_cons (standsAlone_of_isAsciiBlank hc), opensCall, if_pos hc, ih]
  | lexeme hl hs _ _ =>
    obtain ⟨t, r, hscan, -, hcall⟩ := scan_lexeme hl hs
    rw [hscan, hcall, List.head?_cons, Option.some_inj]

theorem Lexes.all_isBlank_scan {s : List Char} {ls : List Lexeme} (h : Lexes s ls) :
    (scan s).all Token.isBlank = ls.isEmpty := by
  induction h with
  | nil => simp [scan]
  | blank hc _ ih =>
    rw [scan_cons (standsAlone_of_isAsciiBlank hc), List.all_cons, ih, Token.isBlank,
      isBlank_of_isAsciiBlank hc, Bool.true_and]
  | lexeme hl hs _ _ =>
    obtain ⟨t, r, hscan, hblank, -⟩ := scan_lexeme hl hs
    rw [hscan, List.all_cons, hblank, Bool.false_and, List.isEmpty_cons]

def replacement (sub : String → Option String) (l : Lexeme) (ls : List Lexeme) : Option String :=
  match l with
  | .word w => if isKeyword w ∨ ls.head? = some .opening then none else sub (.ofList w)
  | _ => none

def placed (sub : String → Option String) (alone : Bool) (l : Lexeme) (ls : List Lexeme) :
    List Char :=
  match replacement sub l ls with
  | some s => place alone (trim s.toList)
  | none => l.text

section Rewriting

variable {sub : String → Option String} {b : Bool} {s : List Char} {ls : List Lexeme}

theorem rewriteTokens_other (w : List Char) (ts : List Token) :
    rewriteTokens sub b (w.map .other ++ ts) =
      w ++ rewriteTokens sub (b && w.all isBlank) ts := by
  induction w generalizing b with
  | nil => simp
  | cons c w ih =>
    rw [List.map_cons, List.cons_append, rewriteTokens, ih, List.all_cons, Bool.and_assoc]
    rfl

theorem rewriteTokens_blank {c : Char} (hc : isAsciiBlank c = true) (s : List Char) :
    rewriteTokens sub b (scan (c :: s)) = c :: rewriteTokens sub b (scan s) := by
  have h : rewriteTokens sub b ([c].map .other ++ scan s) = _ := rewriteTokens_other [c] (scan s)
  rw [scan_cons (standsAlone_of_isAsciiBlank hc)]
  simpa [isBlank_of_isAsciiBlank hc] using h

theorem reference?_word (h : Lexes s ls) (w : List Char) :
    (reference? (.word w) (scan s)).bind sub = replacement sub (.word w) ls := by
  have hcall := h.opensCall_scan
  by_cases hw : isKeyword w = true ∨ ls.head? = some .opening
  · have hw' : (isKeyword w || opensCall (scan s)) = true := by
      rw [Bool.or_eq_true]
      exact hw.imp_right hcall.2
    simp [reference?, Token.name?, hw', replacement, hw]
  · have hw' : (isKeyword w || opensCall (scan s)) = false := by
      rw [Bool.or_eq_false_iff, ← Bool.not_eq_true, ← Bool.not_eq_true, hcall]
      exact not_or.1 hw
    simp [reference?, Token.name?, hw', replacement, hw]

theorem rewriteTokens_lexeme {l : Lexeme} (hl : l.Valid) (hgo : ∀ c ∈ s.head?, l.goesOn c = false)
    (h : Lexes s ls) :
    rewriteTokens sub b (scan (l.text ++ s)) =
      placed sub (b && ls.isEmpty) l ls ++ rewriteTokens sub false (scan s) := by
  have hsymbol (hmem : l ∈ symbols) : rewriteTokens sub b (scan (l.text ++ s)) =
      l.text ++ rewriteTokens sub false (scan s) := by
    rw [scan_append (standsAlone_symbol hmem), rewriteTokens_other]
    obtain ⟨c, w, hcw⟩ := List.exists_cons_of_ne_nil (Lexeme.text_ne_nil hl)
    have hc : isBlank c = false := Lexeme.isBlank_of_mem_text hl (by simp [hcw])
    simp [hcw, hc]
  cases l with
  | number w =>
    rw [Lexeme.text]
    obtain hw | ⟨v, rfl, hw⟩ := scan_number hl hgo
    · rw [hw, rewriteTokens]
      simp [reference?, Token.name?, Token.text, Token.isBlank, placed, replacement, Lexeme.text]
    · rw [hw]
      simp [rewriteTokens, reference?, Token.name?, Token.text, Token.isBlank, placed, replacement,
        Lexeme.text]
  | word w =>
    rw [Lexeme.text, scan_name hl hgo, rewriteTokens, h.all_isBlank_scan, reference?_word h]
    change _ ++ rewriteTokens sub (b && false) (scan s) = _
    rw [Bool.and_false]
    rfl
  | op o => exact hsymbol (by cases o <;> decide)
  | opening => exact hsymbol (by decide)
  | closing => exact hsymbol (by decide)

end Rewriting

end MetricSql.Expr.Arithmetic
