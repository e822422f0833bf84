import MetricSql.Proofs.Arithmetic.Scanning

namespace MetricSql.Expr

open Text Arithmetic

inductive Doubled (q : Char) : List Char → Prop
  | nil : Doubled q []
  | char {c s} : c ≠ q → Doubled q s → Doubled q (c :: s)
  | pair {s} : Doubled q s → Doubled q (q :: q :: s)

/-- What each kind of token looks like in front of the text `rest`. Literals and quoted names end
with their closing quote or run to the end, and words are as long as they can be. -/
inductive Token.Stands : Token → (rest : List Char) → Prop
  | literal {q s rest} : q = '\'' ∨ q = '"' → Doubled q s → rest.head? ≠ some q →
      Stands (.literal (q :: (s ++ [q]))) rest
  | openLiteral {q s} : q = '\'' ∨ q = '"' → Doubled q s → Stands (.literal (q :: s)) []
  | quoted {n rest} : backtick ∉ n → Stands (.quoted n true) rest
  | openQuoted {n} : backtick ∉ n → Stands (.quoted n false) []
  | number {c s rest} : c.isDigit = true → (∀ a ∈ s, isWordChar a = true) →
      (∀ a ∈ rest.head?, isWordChar a = false) → Stands (.number (c :: s)) rest
  | word {c s rest} : isWordStart c = true → (∀ a ∈ s, isWordChar a = true) →
      (∀ a ∈ rest.head?, isWordChar a = false) → Stands (.word (c :: s)) rest
  | other {c rest} : standsAlone c = true → Stands (.other c) rest

inductive Splits : List Char → List Token → Prop
  | nil : Splits [] []
  | cons {t s ts} : t.Stands s → Splits s ts → Splits (t.text ++ s) (t :: ts)

variable {q c : Char} {s rest : List Char} {t : Token} {ts : List Token}

theorem isWordChar_of_isWordStart (h : isWordStart c = true) : isWordChar c = true := by
  simp only [isWordStart, Bool.or_eq_true, beq_iff_eq] at h
  obtain h | rfl := h
  · simp [isWordChar, Char.isAlphanum, h]
  · rfl

theorem quotedSpan_closed (h : Doubled q s) (hrest : rest.head? ≠ some q) :
    quotedSpan q (s ++ q :: rest) = (s ++ [q], rest) := by
  induction h with
  | nil =>
    cases rest with
    | nil => rfl
    | cons d rest =>
      have hd : d ≠ q := fun hd => hrest (by simp [hd])
      simp [quotedSpan, hd]
  | @char c s hc _ ih =>
    obtain ⟨d, u, hdu⟩ : ∃ d u, s ++ q :: rest = d :: u := by
      cases s <;> simp
    rw [List.cons_append, hdu, quotedSpan, if_neg hc, ← hdu, ih]
    rfl
  | pair _ ih =>
    rw [List.cons_append, List.cons_append, quotedSpan, if_pos rfl, if_pos rfl, ih]
    rfl

theorem quotedSpan_open (h : Doubled q s) : quotedSpan q s = (s, []) := by
  induction h with
  | nil => rfl
  | @char c s hc _ ih =>
    cases s with
    | nil => rfl
    | cons d u => rw [quotedSpan, if_neg hc, ih]
  | pair _ ih => rw [quotedSpan, if_pos rfl, if_pos rfl, ih]

theorem exists_quotedSpan (q : Char) (s : List Char) :
    (∃ b rest, s = b ++ q :: rest ∧ Doubled q b ∧ rest.head? ≠ some q) ∨ Doubled q s := by
  fun_induction quotedSpan q s with
  | case1 => exact .inr .nil
  | case2 c =>
    by_cases hc : c = q
    · subst hc
      exact .inl ⟨[], [], rfl, .nil, by simp⟩
    · exact .inr (.char hc .nil)
  | case3 r ih =>
    obtain ⟨b, rest, rfl, hb, hrest⟩ | hr := ih
    · exact .inl ⟨q :: q :: b, rest, rfl, .pair hb, hrest⟩
    · exact .inr (.pair hr)
  | case4 d r hd => exact .inl ⟨[], d :: r, rfl, .nil, by simpa using hd⟩
  | case5 c d r hc ih =>
    obtain ⟨b, rest, hr, hb, hrest⟩ | hr := ih
    · exact .inl ⟨c :: b, rest, by rw [hr, List.cons_append], .char hc hb, hrest⟩
    · exact .inr (.char hc hr)

namespace Token

theorem text_quoted_closed (n rest : List Char) :
    (quoted n true).text ++ rest = backtick :: (n ++ backtick :: rest) := by
  simp [text]

theorem text_quoted_open (n : List Char) : (quoted n false).text ++ [] = backtick :: n := by
  simp [text]

theorem exists_stands (c : Char) (r : List Char) :
    ∃ t rest, c :: r = text t ++ rest ∧ t.Stands rest := by
  have hrun := (List.takeWhile_append_dropWhile (p := isWordChar) (l := r)).symm
  have hall : ∀ a ∈ r.takeWhile isWordChar, isWordChar a = true :=
    List.all_eq_true.1 List.all_takeWhile
  have hnext : ∀ a ∈ (r.dropWhile isWordChar).head?, isWordChar a = false := by
    intro a ha
    have hd := List.head?_dropWhile_not isWordChar r
    rwa [Option.mem_def.1 ha] at hd
  by_cases halone : standsAlone c = true
  · exact ⟨.other c, r, rfl, .other halone⟩
  simp only [standsAlone, Bool.not_eq_true', Bool.not_eq_false, Bool.or_eq_true, beq_iff_eq]
    at halone
  obtain ((hquote | rfl) | hdigit) | hstart := halone
  · obtain ⟨b, rest, rfl, hb, hrest⟩ | hr := exists_quotedSpan c r
    · exact ⟨_, rest, by simp [text], .literal hquote hb hrest⟩
    · exact ⟨_, [], (List.append_nil _).symm, .openLiteral hquote hr⟩
  · by_cases hr : backtick ∈ r
    · obtain ⟨n, rest, rfl, hn⟩ := List.eq_append_cons_of_mem hr
      exact ⟨_, rest, (text_quoted_closed n rest).symm, .quoted hn⟩
    · exact ⟨_, [], (text_quoted_open r).symm, .openQuoted hr⟩
  · refine ⟨_, r.dropWhile isWordChar, ?_, .number hdigit hall hnext⟩
    rw [text, List.cons_append, ← hrun]
  · refine ⟨_, r.dropWhile isWordChar, ?_, .word hstart hall hnext⟩
    rw [text, List.cons_append, ← hrun]

namespace Stands

theorem cases_head (h : t.Stands rest) :
    (∃ c, t = .other c ∧ standsAlone c = true) ∨
      (∀ ts, opensCall (t :: ts) = false) ∧ ∃ c r, t.text = c :: r ∧ standsAlone c = false := by
  have hquote {q : Char} (hq : q = '\'' ∨ q = '"') : standsAlone q = false := by
    obtain rfl | rfl := hq <;> rfl
  cases h with
  | literal hq _ _ => exact .inr ⟨fun _ => rfl, _, _, rfl, hquote hq⟩
  | openLiteral hq _ => exact .inr ⟨fun _ => rfl, _, _, rfl, hquote hq⟩
  | quoted _ => exact .inr ⟨fun _ => rfl, _, _, rfl, rfl⟩
  | openQuoted _ => exact .inr ⟨fun _ => rfl, _, _, rfl, rfl⟩
  | number hc _ _ => exact .inr ⟨fun _ => rfl, _, _, rfl, by simp [standsAlone, hc]⟩
  | word hc _ _ => exact .inr ⟨fun _ => rfl, _, _, rfl, by simp [standsAlone, hc]⟩
  | other hc => exact .inl ⟨_, rfl, hc⟩

theorem text_ne_nil (h : t.Stands rest) : t.text ≠ [] := by
  obtain ⟨c, rfl, -⟩ | ⟨-, c, r, hcr, -⟩ := h.cases_head
  · exact List.cons_ne_nil c []
  · rw [hcr]
    exact List.cons_ne_nil c r

theorem scan_literal {q : Char} (hq : q = '\'' ∨ q = '"') (s : List Char) :
    scan (q :: s) = .literal (q :: (quotedSpan q s).1) :: scan (quotedSpan q s).2 := by
  rw [scan, if_pos hq]

theorem scan_quoted (s : List Char) :
    scan (backtick :: s) =
      .quoted (s.takeWhile (· != backtick)) (s.contains backtick) ::
        scan ((s.dropWhile (· != backtick)).drop 1) := by
  rw [scan, if_neg (by decide), if_pos rfl]

theorem scan_append (h : t.Stands rest) : scan (t.text ++ rest) = t :: scan rest := by
  have hname {n : List Char} (hn : backtick ∉ n) : ∀ c ∈ n, (c != backtick) = true := by
    intro c hc
    rw [bne_iff_ne]
    rintro rfl
    exact hn hc
  cases h with
  | literal hq hs hrest =>
    rw [text, List.cons_append, List.append_assoc, List.singleton_append, scan_literal hq,
      quotedSpan_closed hs hrest]
  | openLiteral hq hs => rw [text, List.append_nil, scan_literal hq, quotedSpan_open hs]
  | quoted hn =>
    rw [text_quoted_closed, scan_quoted, List.takeWhile_append_of_pos (hname hn),
      List.dropWhile_append_of_pos (hname hn)]
    simp
  | openQuoted hn =>
    rw [text_quoted_open, scan_quoted, List.takeWhile_eq_self_iff.2 (hname hn),
      List.dropWhile_eq_nil_iff.2 (hname hn)]
    simp [hn]
  | number hc hs hrest => exact scan_digits hc hs hrest
  | @word c s _ hc hs hrest =>
    refine scan_name (w := c :: s) ?_ hrest
    simpa [isName, hc, isWordChar_of_isWordStart hc] using hs
  | other hc => exact scan_cons hc rest

end Stands

end Token

theorem Splits.scan_eq (h : Splits s ts) : scan s = ts := by
  induction h with
  | nil => rw [scan]
  | cons ht _ ih => rw [ht.scan_append, ih]

theorem splits_scan (s : List Char) : Splits s (scan s) := by
  induction hn : s.length using Nat.strong_induction_on generalizing s with
  | _ n ih =>
    cases s with
    | nil =>
      rw [scan]
      exact .nil
    | cons c r =>
      obtain ⟨t, rest, hsplit, ht⟩ := Token.exists_stands c r
      rw [hsplit, ht.scan_append]
      refine .cons ht (ih _ ?_ rest rfl)
      have hlength := List.length_pos_iff.2 ht.text_ne_nil
      rw [← hn, hsplit, List.length_append]
      omega

/-- A text splits in one way, into the tokens that are scanned. -/
theorem splits_iff : Splits s ts ↔ ts = scan s := by
  refine ⟨fun h => h.scan_eq.symm, ?_⟩
  rintro rfl
  exact splits_scan s

namespace Splits

theorem flatMap_text (h : Splits s ts) : ts.flatMap Token.text = s := by
  induction h with
  | nil => rfl
  | cons _ _ ih => rw [List.flatMap_cons, ih]

theorem of_append {ts us : List Token} (h : Splits s (ts ++ us)) :
    Splits (us.flatMap Token.text) us := by
  induction ts generalizing s with
  | nil => rwa [← flatMap_text h] at h
  | cons t ts ih =>
    cases h with
    | cons _ h => exact ih h

theorem after {t : Token} {ts us : List Token} (h : Splits s (ts ++ t :: us)) :
    Splits (us.flatMap Token.text) us := by
  rw [List.append_cons] at h
  exact h.of_append

end Splits

def OpensCall (s : List Char) : Prop :=
  ∃ blanks r, s = blanks ++ '(' :: r ∧ ∀ c ∈ blanks, isAsciiBlank c = true

theorem not_opensCall_nil : ¬OpensCall [] := by
  rintro ⟨blanks, r, h, -⟩
  simp at h

theorem opensCall_cons_iff : OpensCall (c :: s) ↔ c = '(' ∨ isAsciiBlank c = true ∧ OpensCall s := by
  constructor
  · rintro ⟨blanks, r, h, hblanks⟩
    cases blanks with
    | nil => exact .inl (List.cons.inj h).1
    | cons b blanks =>
      obtain ⟨rfl, rfl⟩ := List.cons.inj h
      exact .inr ⟨hblanks c List.mem_cons_self, blanks, r, rfl,
        fun a ha => hblanks a (List.mem_cons_of_mem _ ha)⟩
  · rintro (rfl | ⟨hc, blanks, r, rfl, hblanks⟩)
    · exact ⟨[], s, rfl, by simp⟩
    · exact ⟨c :: blanks, r, rfl, List.forall_mem_cons.2 ⟨hc, hblanks⟩⟩

theorem Splits.opensCall_iff (h : Splits s ts) : opensCall ts = true ↔ OpensCall s := by
  induction h with
  | nil => exact iff_of_false Bool.false_ne_true not_opensCall_nil
  | @cons t s ts ht _ ih =>
    obtain ⟨c, rfl, -⟩ | ⟨hcall, c, r, hcr, hc⟩ := ht.cases_head
    · rw [Token.text, List.singleton_append, opensCall_cons_iff, ← ih, opensCall]
      by_cases hblank : isAsciiBlank c = true
      · have hne : c ≠ '(' := by
          rintro rfl
          cases hblank
        simp [hblank, hne]
      · simp [hblank]
    · rw [hcall, hcr, List.cons_append, opensCall_cons_iff]
      refine iff_of_false Bool.false_ne_true ?_
      rintro (rfl | ⟨hblank, -⟩)
      · cases hc
      · rw [standsAlone_of_isAsciiBlank hblank] at hc
        cases hc

end MetricSql.Expr
