import MetricSql.Proofs.Arithmetic.Grammar
import MetricSql.Proofs.Text.Runs
import MetricSql.Proofs.Text.Trim

namespace MetricSql.Expr.Arithmetic

open Text

def Op.text : Op → List Char
  | comma => [',']
  | eq => ['=']
  | ne => ['<', '>']
  | lt => ['<']
  | gt => ['>']
  | le => ['<', '=']
  | ge => ['>', '=']
  | add => ['+']
  | sub => ['-']
  | mul => ['*']
  | div => ['/']
  | mod => ['%']

namespace Lexeme

def text : Lexeme → List Char
  | number s => s
  | word s => s
  | op o => o.text
  | opening => ['(']
  | closing => [')']

def goesOn : Lexeme → Char → Bool
  | number _, c => isWordChar c
  | word _, c => isWordChar c
  | op .lt, c => c == '=' || c == '>'
  | op .gt, c => c == '='
  | _, _ => false

end Lexeme

def isDecimal (s : List Char) : Bool :=
  s.any Char.isDigit && s.all (fun c => c.isDigit || c == '.') && s.count '.' ≤ 1

def isName (s : List Char) : Bool := s.head?.any isWordStart && s.all isWordChar

/-- The longer ones come first. -/
def symbols : List Lexeme :=
  [.op .ne, .op .le, .op .ge, .op .comma, .op .eq, .op .lt, .op .gt, .op .add, .op .sub, .op .mul,
    .op .div, .op .mod, .opening, .closing]

def wordLexeme? (s : List Char) : Option Lexeme :=
  if isDecimal s then some (.number s) else if isName s then some (.word s) else none

def lex : List Char → Option (List Lexeme)
  | [] => some []
  | c :: r =>
    if isAsciiBlank c then lex r
    else if isWordChar c then
      match wordLexeme? (c :: r.takeWhile isWordChar) with
      | some l => (lex (r.dropWhile isWordChar)).map (l :: ·)
      | none => none
    else
      match symbols.find? (·.text.isPrefixOf (c :: r)) with
      | some l => (lex (r.drop (l.text.length - 1))).map (l :: ·)
      | none => none
termination_by s => s.length
decreasing_by
  · simp
  · exact Nat.lt_succ_of_le (List.dropWhile_suffix _).length_le
  · simp only [List.length_drop, List.length_cons]
    omega

def parse (s : String) : Option Tree := (lex s.toList).bind parseLexemes

def Lexeme.Valid : Lexeme → Prop
  | .number s => isDecimal s = true
  | .word s => isName s = true
  | _ => True

inductive Lexes : List Char → List Lexeme → Prop
  | nil : Lexes [] []
  | blank {c s ls} : isAsciiBlank c = true → Lexes s ls → Lexes (c :: s) ls
  | lexeme {l s ls} : l.Valid → (∀ c ∈ s.head?, l.goesOn c = false) → Lexes s ls →
      Lexes (l.text ++ s) (l :: ls)

theorem isBlank_of_isWordChar {c : Char} (h : isWordChar c = true) : isBlank c = false := by
  simp only [isWordChar, Bool.or_eq_true, beq_iff_eq] at h
  obtain (h | rfl) | rfl := h
  · exact isBlank_of_isAlphanum h
  · rfl
  · rfl

theorem isWordChar_of_isDigit {c : Char} (h : c.isDigit = true) : isWordChar c = true := by
  simp [isWordChar, Char.isAlphanum, h]

theorem isAsciiBlank_eq_false {c : Char} (h : isBlank c = false) : isAsciiBlank c = false := by
  rw [← Bool.not_eq_true]
  intro hc
  rw [isBlank_of_isAsciiBlank hc] at h
  cases h

theorem isDecimal_char {s : List Char} (h : isDecimal s = true) {c : Char} (hc : c ∈ s) :
    c.isDigit = true ∨ c = '.' := by
  simp only [isDecimal, Bool.and_eq_true, List.all_eq_true, Bool.or_eq_true, beq_iff_eq] at h
  exact h.1.2 c hc

theorem isDigit_of_isWordStart {c : Char} (h : isWordStart c = true) : c.isDigit = false := by
  simp only [isWordStart, Char.isAlpha, Char.isUpper, Char.isLower, Bool.or_eq_true,
    Bool.and_eq_true, decide_eq_true_eq, beq_iff_eq, ge_iff_le, UInt32.le_iff_toNat_le] at h
  obtain h | rfl := h
  · change 65 ≤ c.toNat ∧ c.toNat ≤ 90 ∨ 97 ≤ c.toNat ∧ c.toNat ≤ 122 at h
    rw [← Bool.not_eq_true, Char.isDigit_iff_toNat]
    change ¬(48 ≤ c.toNat ∧ c.toNat ≤ 57)
    omega
  · rfl

theorem isName_eq_true {s : List Char} (h : isName s = true) :
    (∃ c r, s = c :: r ∧ isWordStart c = true) ∧ ∀ c ∈ s, isWordChar c = true := by
  simp only [isName, Bool.and_eq_true, Option.any_eq_true, List.all_eq_true] at h
  obtain ⟨⟨c, hc, hstart⟩, hall⟩ := h
  obtain ⟨r, rfl⟩ := List.head?_eq_some_iff.1 hc
  exact ⟨⟨c, r, rfl, hstart⟩, hall⟩

theorem isDecimal_of_isName {s : List Char} (h : isName s = true) : isDecimal s = false := by
  rw [← Bool.not_eq_true]
  intro hd
  obtain ⟨⟨c, r, rfl, hstart⟩, -⟩ := isName_eq_true h
  obtain hc | rfl := isDecimal_char hd List.mem_cons_self
  · rw [isDigit_of_isWordStart hstart] at hc
    cases hc
  · revert hstart
    decide

namespace Lexeme

theorem text_ne_nil {l : Lexeme} (h : l.Valid) : l.text ≠ [] := by
  cases l with
  | number s =>
    rintro rfl
    cases h
  | word s =>
    rintro rfl
    cases h
  | op o => cases o <;> decide
  | opening => decide
  | closing => decide

theorem isWordChar_number {s : List Char} (h : (number s).Valid) : ∀ c ∈ s, isWordChar c = true := by
  intro c hc
  obtain hd | rfl := isDecimal_char h hc
  · exact isWordChar_of_isDigit hd
  · rfl

theorem isWordChar_word {s : List Char} (h : (word s).Valid) : ∀ c ∈ s, isWordChar c = true :=
  (isName_eq_true h).2

theorem run_or_symbol {l : Lexeme} (h : l.Valid) :
    ((∀ c ∈ l.text, isWordChar c = true) ∧ l.goesOn = isWordChar) ∨ l ∈ symbols := by
  cases l with
  | number s => exact .inl ⟨isWordChar_number h, rfl⟩
  | word s => exact .inl ⟨isWordChar_word h, rfl⟩
  | op o => exact .inr (by cases o <;> decide)
  | opening => exact .inr (by decide)
  | closing => exact .inr (by decide)

theorem isBlank_of_mem_text {l : Lexeme} (h : l.Valid) {c : Char} (hc : c ∈ l.text) :
    isBlank c = false := by
  obtain ⟨hrun, -⟩ | hsymbol := run_or_symbol h
  · exact isBlank_of_isWordChar (hrun c hc)
  · have hall : ∀ l ∈ symbols, l.text.all (fun c => !isBlank c) = true := by decide
    simpa using List.all_eq_true.1 (hall l hsymbol) c hc

theorem goesOn_of_ne_op {l : Lexeme} {c : Char} (hl : ∀ o, l ≠ .op o) (hc : isWordChar c = false) :
    l.goesOn c = false := by
  cases l with
  | number _ => exact hc
  | word _ => exact hc
  | op o => exact absurd rfl (hl o)
  | opening => rfl
  | closing => rfl

theorem goesOn_eq_true {l : Lexeme} {c : Char} (h : l.goesOn c = true) :
    l.goesOn = isWordChar ∨ c = '=' ∨ c = '>' := by
  match l with
  | .number _ | .word _ => exact .inl rfl
  | .op .lt => exact .inr (by simpa [Lexeme.goesOn] using h)
  | .op .gt => exact .inr (.inl (by simpa [Lexeme.goesOn] using h))
  | .op .comma | .op .eq | .op .ne | .op .le | .op .ge | .op .add | .op .sub | .op .mul | .op .div
  | .op .mod | .opening | .closing => cases h

end Lexeme

theorem wordLexeme?_number {s : List Char} (h : (Lexeme.number s).Valid) :
    wordLexeme? s = some (.number s) :=
  if_pos h

theorem wordLexeme?_word {s : List Char} (h : (Lexeme.word s).Valid) :
    wordLexeme? s = some (.word s) := by
  rw [wordLexeme?, isDecimal_of_isName h]
  exact if_pos h

theorem wordLexeme?_eq_some {s : List Char} {l : Lexeme} (h : wordLexeme? s = some l) :
    l.Valid ∧ l.text = s ∧ l.goesOn = isWordChar := by
  unfold wordLexeme? at h
  split at h
  · next hs =>
    cases h
    exact ⟨hs, rfl, rfl⟩
  · split at h
    · next hs =>
      cases h
      exact ⟨hs, rfl, rfl⟩
    · cases h

theorem lex_run {w s : List Char} (hne : w ≠ []) (hw : ∀ c ∈ w, isWordChar c = true)
    (hs : ∀ c ∈ s.head?, isWordChar c = false) :
    lex (w ++ s) = (wordLexeme? w).bind fun l => (lex s).map (l :: ·) := by
  obtain ⟨c, w, rfl⟩ := List.exists_cons_of_ne_nil hne
  have hc : isWordChar c = true := hw c List.mem_cons_self
  have hblank : isAsciiBlank c = false := isAsciiBlank_eq_false (isBlank_of_isWordChar hc)
  have htail : ∀ a ∈ w, isWordChar a = true := fun a ha => hw a (List.mem_cons_of_mem _ ha)
  obtain ⟨htake, hdrop⟩ := takeWhile_run htail hs
  rw [List.cons_append, lex, if_neg (by simp [hblank]), if_pos hc, htake, hdrop]
  cases wordLexeme? (c :: w) <;> rfl

theorem valid_of_mem_symbols {l : Lexeme} (h : l ∈ symbols) : l.Valid := by
  cases l with
  | number s => simp [symbols] at h
  | word s => simp [symbols] at h
  | _ => trivial

theorem find?_symbols {l : Lexeme} {s : List Char} (hl : l ∈ symbols)
    (hs : ∀ c ∈ s.head?, l.goesOn c = false) :
    symbols.find? (·.text.isPrefixOf (l.text ++ s)) = some l := by
  cases s with
  | nil =>
    have hall : ∀ l ∈ symbols, symbols.find? (·.text.isPrefixOf l.text) = some l := by decide
    rw [List.append_nil]
    exact hall l hl
  | cons a s =>
    have ha := hs a rfl
    cases l with
    | number _ => simp [symbols] at hl
    | word _ => simp [symbols] at hl
    | op o =>
      cases o <;> simp_all [symbols, Lexeme.text, Op.text, Lexeme.goesOn, List.isPrefixOf,
        @eq_comm _ '=', @eq_comm _ '>']
    | opening => simp [symbols, Lexeme.text, Op.text]
    | closing => simp [symbols, Lexeme.text, Op.text]

theorem head_symbol {l : Lexeme} (hl : l ∈ symbols) :
    ∃ c w, l.text = c :: w ∧ isAsciiBlank c = false ∧ isWordChar c = false := by
  cases l with
  | number _ => simp [symbols] at hl
  | word _ => simp [symbols] at hl
  | op o => cases o <;> exact ⟨_, _, rfl, by decide⟩
  | opening => exact ⟨_, _, rfl, by decide⟩
  | closing => exact ⟨_, _, rfl, by decide⟩

theorem lex_symbol {l : Lexeme} {s : List Char} (hl : l ∈ symbols)
    (hs : ∀ c ∈ s.head?, l.goesOn c = false) : lex (l.text ++ s) = (lex s).map (l :: ·) := by
  obtain ⟨c, w, hcw, hblank, hword⟩ := head_symbol hl
  have hfind := find?_symbols hl hs
  rw [hcw, List.cons_append] at hfind ⊢
  rw [lex, if_neg (by simp [hblank]), if_neg (by simp [hword]), hfind]
  simp [hcw]

theorem lex_lexeme {l : Lexeme} {s : List Char} (hl : l.Valid)
    (hs : ∀ c ∈ s.head?, l.goesOn c = false) : lex (l.text ++ s) = (lex s).map (l :: ·) := by
  cases l with
  | number w =>
    change lex (w ++ s) = _
    rw [lex_run (w := w) (Lexeme.text_ne_nil hl) (Lexeme.isWordChar_number hl) hs,
      wordLexeme?_number hl, Option.bind_some]
  | word w =>
    change lex (w ++ s) = _
    rw [lex_run (w := w) (Lexeme.text_ne_nil hl) (Lexeme.isWordChar_word hl) hs,
      wordLexeme?_word hl, Option.bind_some]
  | op o => exact lex_symbol (by cases o <;> decide) hs
  | opening => exact lex_symbol (by decide) hs
  | closing => exact lex_symbol (by decide) hs

theorem goesOn_of_find? {l : Lexeme} {s : List Char}
    (h : symbols.find? (·.text.isPrefixOf (l.text ++ s)) = some l) :
    ∀ c ∈ s.head?, l.goesOn c = false := by
  intro c hc
  obtain ⟨s, rfl⟩ := List.head?_eq_some_iff.1 hc
  rw [← Bool.not_eq_true]
  intro hgo
  have hl : l ∈ symbols := List.mem_of_find?_eq_some h
  match l with
  | .number _ | .word _ => simp [symbols] at hl
  | .op .lt =>
    simp only [Lexeme.goesOn, Bool.or_eq_true, beq_iff_eq] at hgo
    obtain rfl | rfl := hgo
    · simp [symbols, Lexeme.text, Op.text] at h
    · simp [symbols, Lexeme.text, Op.text] at h
  | .op .gt =>
    simp only [Lexeme.goesOn, beq_iff_eq] at hgo
    subst hgo
    simp [symbols, Lexeme.text, Op.text] at h
  | .op .comma | .op .eq | .op .ne | .op .le | .op .ge | .op .add | .op .sub | .op .mul | .op .div
  | .op .mod | .opening | .closing => cases hgo

theorem lex_eq_some {s : List Char} {ls : List Lexeme} : lex s = some ls ↔ Lexes s ls := by
  constructor
  · intro h
    fun_induction lex s generalizing ls with
    | case1 =>
      cases h
      exact .nil
    | case2 c r hc ih => exact .blank hc (ih h)
    | case3 c r hc hw l hl ih =>
      obtain ⟨ls, hls, rfl⟩ := Option.map_eq_some_iff.1 h
      obtain ⟨hvalid, htext, hgo⟩ := wordLexeme?_eq_some hl
      have hsplit : c :: r = l.text ++ r.dropWhile isWordChar := by
        rw [htext, List.cons_append, List.takeWhile_append_dropWhile]
      rw [hsplit]
      refine .lexeme hvalid ?_ (ih hls)
      intro a ha
      have hd := List.head?_dropWhile_not isWordChar r
      rw [Option.mem_def.1 ha] at hd
      rwa [hgo]
    | case4 => cases h
    | case5 c r hc hw l hl ih =>
      obtain ⟨ls, hls, rfl⟩ := Option.map_eq_some_iff.1 h
      have hmem : l ∈ symbols := List.mem_of_find?_eq_some hl
      have hsplit : c :: r = l.text ++ r.drop (l.text.length - 1) := by
        obtain ⟨a, w, haw, -⟩ := head_symbol hmem
        have hpre : l.text.isPrefixOf (c :: r) = true := by
          simpa using List.find?_some hl
        rw [haw] at hpre ⊢
        obtain ⟨s, hs⟩ := List.isPrefixOf_iff_prefix.1 hpre
        cases hs
        simp
      rw [hsplit] at hl ⊢
      exact .lexeme (valid_of_mem_symbols hmem) (goesOn_of_find? hl) (ih hls)
    | case6 => cases h
  · intro h
    induction h with
    | nil => rw [lex]
    | blank hc _ ih => rw [lex, if_pos hc, ih]
    | lexeme hl hs _ ih => rw [lex_lexeme hl hs, ih, Option.map_some]

theorem parse_eq_some {s : String} {t : Tree} :
    parse s = some t ↔ ∃ ls, Lexes s.toList ls ∧ Derives 1 ls t := by
  rw [parse, Option.bind_eq_some_iff]
  constructor
  · rintro ⟨ls, hs, hls⟩
    exact ⟨ls, lex_eq_some.1 hs, parseLexemes_eq_some.1 hls⟩
  · rintro ⟨ls, hs, hls⟩
    exact ⟨ls, lex_eq_some.2 hs, parseLexemes_eq_some.2 hls⟩

example : parse "1 - -x % 2" =
    some (.binary .sub (.number ['1']) (.binary .mod (.neg (.name "x")) (.number ['2']))) := by
  cbv

namespace Lexes

variable {s t : List Char} {ls ms : List Lexeme}

theorem of_nil (h : Lexes [] ls) : ls = [] := by
  rw [← lex_eq_some, lex] at h
  exact (Option.some.inj h).symm

theorem of_lexeme {l : Lexeme} (hl : l.Valid) (hs : ∀ c ∈ s.head?, l.goesOn c = false)
    (h : Lexes (l.text ++ s) ls) : ∃ ms, ls = l :: ms ∧ Lexes s ms := by
  rw [← lex_eq_some, lex_lexeme hl hs, Option.map_eq_some_iff] at h
  obtain ⟨ms, hms, rfl⟩ := h
  exact ⟨ms, rfl, lex_eq_some.1 hms⟩

theorem append (hs : Lexes s ls) (ht : Lexes t ms)
    (hjoin : ∀ l ∈ ls.getLast?, ∀ c ∈ t.head?, l.goesOn c = false) :
    Lexes (s ++ t) (ls ++ ms) := by
  induction hs with
  | nil => exact ht
  | blank hc _ ih => exact .blank hc (ih hjoin)
  | @lexeme l s ls hl hgo hs ih =>
    rw [List.append_assoc, List.cons_append]
    refine .lexeme hl ?_ (ih fun l' hl' => hjoin l' ?_)
    · intro c hc
      cases s with
      | cons a s => exact hgo c hc
      | nil =>
        rw [hs.of_nil] at hjoin
        exact hjoin l rfl c hc
    · rw [List.getLast?_cons, Option.mem_def.1 hl']
      rfl

theorem trimStart (h : Lexes s ls) : Lexes (Text.trimStart s) ls := by
  induction h with
  | nil => exact .nil
  | blank hc hs ih =>
    rw [Text.trimStart, List.dropWhile_cons_of_pos (isBlank_of_isAsciiBlank hc)]
    exact ih
  | @lexeme l s ls hl hgo hs ih =>
    rw [trimStart_eq_self]
    · exact .lexeme hl hgo hs
    · intro c hc
      obtain ⟨a, w, haw⟩ := List.exists_cons_of_ne_nil (Lexeme.text_ne_nil hl)
      rw [haw] at hc
      cases hc
      exact Lexeme.isBlank_of_mem_text hl (by simp [haw])

theorem of_append_blank {c : Char} (hc : isBlank c = true) (h : Lexes (s ++ [c]) ls) :
    Lexes s ls := by
  generalize he : s ++ [c] = s' at h
  induction h generalizing s with
  | nil => simp at he
  | @blank a s' ls ha h ih =>
    cases s with
    | nil =>
      cases he
      rw [h.of_nil]
      exact .nil
    | cons b s =>
      cases he
      exact .blank ha (ih rfl)
  | @lexeme l s' ls hl hgo h ih =>
    obtain rfl | ⟨u, a, rfl⟩ := List.eq_nil_or_concat s'
    · have hmem : c ∈ l.text := by
        rw [List.append_nil] at he
        rw [← he]
        simp
      rw [Lexeme.isBlank_of_mem_text hl hmem] at hc
      cases hc
    · rw [List.concat_eq_append] at *
      rw [← List.append_assoc] at he
      obtain ⟨rfl, hca⟩ := List.append_inj' he rfl
      cases hca
      refine .lexeme hl ?_ (ih rfl)
      intro b hb
      apply hgo
      rw [List.head?_append, Option.mem_def.1 hb]
      rfl

theorem trimEnd (h : Lexes s ls) : Lexes (Text.trimEnd s) ls := by
  rw [Text.trimEnd]
  generalize hr : s.reverse = r
  rw [← List.reverse_reverse s, hr] at h
  clear hr
  induction r with
  | nil => exact h
  | cons c r ih =>
    by_cases hc : isBlank c = true
    · rw [List.dropWhile_cons_of_pos hc]
      rw [List.reverse_cons] at h
      exact ih (of_append_blank hc h)
    · rwa [List.dropWhile_cons_of_neg hc]

theorem trim (h : Lexes s ls) : Lexes (Text.trim s) ls := h.trimStart.trimEnd

end Lexes

end MetricSql.Expr.Arithmetic
