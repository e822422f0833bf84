import MetricSql.Expr.Rewrite
import MetricSql.Proofs.Arithmetic.Lexing

namespace MetricSql.Expr.Arithmetic

open Text

def operatorAt (depth : Int) : List Lexeme → Bool
  | [] => false
  | .opening :: ts => operatorAt (depth + 1) ts
  | .closing :: ts => operatorAt (depth - 1) ts
  | .op o :: ts => decide (o ≠ .comma) && depth == 0 || operatorAt depth ts
  | .number _ :: ts => operatorAt depth ts
  | .word _ :: ts => operatorAt depth ts

/-- Whether the parenthesis that `depth` counts closes with the last lexeme. -/
def closesLast : (depth : Nat) → List Lexeme → Bool
  | _, [] => false
  | depth, .opening :: ts => closesLast (depth + 1) ts
  | depth, .closing :: ts => if depth = 1 then ts.isEmpty else closesLast (depth - 1) ts
  | depth, _ :: ts => closesLast depth ts

def enclosed : List Lexeme → Bool
  | .opening :: ts => closesLast 1 ts
  | _ => false

namespace Derives

variable {k : Nat} {ts : List Lexeme} {t : Tree}

theorem ne_nil (h : Derives k ts t) : ts ≠ [] := by
  cases h <;> simp

theorem head_op (h : Derives k ts t) {o : Op} (ho : ts.head? = some (.op o)) : o = .sub := by
  induction h with
  | number => cases ho
  | name _ => cases ho
  | call _ _ => cases ho
  | paren _ _ => cases ho
  | neg _ _ _ =>
    cases ho
    rfl
  | binary _ ht _ iht _ =>
    obtain ⟨l, ts, rfl⟩ := List.exists_cons_of_ne_nil ht.ne_nil
    exact iht ho

theorem last_not_op (h : Derives k ts t) (o : Op) : ts.getLast? ≠ some (.op o) := by
  induction h with
  | number => simp
  | name _ => simp
  | call _ _ => simp [List.getLast?_cons]
  | paren _ _ => simp [List.getLast?_cons]
  | neg _ h ih =>
    rwa [List.getLast?_cons_of_ne_nil h.ne_nil]
  | binary _ _ hu _ ihu =>
    rwa [List.getLast?_append_of_ne_nil _ (by simp), List.getLast?_cons_of_ne_nil hu.ne_nil]

theorem goesOn_last (h : Derives k ts t) {c : Char} (hc : isWordChar c = false) :
    ∀ l ∈ ts.getLast?, l.goesOn c = false := by
  intro l hl
  refine Lexeme.goesOn_of_ne_op ?_ hc
  rintro o rfl
  exact h.last_not_op o hl

theorem operatorAt_append (h : Derives k ts t) {d : Int} {us : List Lexeme}
    (hus : operatorAt d us = true) : operatorAt d (ts ++ us) = true := by
  induction h generalizing d us with
  | number => exact hus
  | name _ => exact hus
  | call _ ih =>
    simp only [List.cons_append, List.append_assoc, List.nil_append, operatorAt]
    apply ih
    rwa [operatorAt, Int.add_sub_cancel]
  | paren _ ih =>
    simp only [List.cons_append, List.append_assoc, List.nil_append, operatorAt]
    apply ih
    rwa [operatorAt, Int.add_sub_cancel]
  | neg _ _ ih =>
    rw [List.cons_append, operatorAt, ih hus, Bool.or_true]
  | binary _ _ _ iht ihu =>
    rw [List.append_assoc, List.cons_append]
    apply iht
    rw [operatorAt, ihu hus, Bool.or_true]

theorem closesLast_append (h : Derives k ts t) (d : Nat) (us : List Lexeme) :
    closesLast (d + 1) (ts ++ us) = closesLast (d + 1) us := by
  induction h generalizing d us with
  | number => rfl
  | name _ => rfl
  | call _ ih =>
    simp only [List.cons_append, List.append_assoc, List.nil_append, closesLast]
    rw [ih]
    simp [closesLast]
  | paren _ ih =>
    simp only [List.cons_append, List.append_assoc, List.nil_append, closesLast]
    rw [ih]
    simp [closesLast]
  | neg _ _ ih => exact ih d us
  | binary _ _ _ iht ihu =>
    rw [List.append_assoc, List.cons_append, iht]
    exact ihu d us

theorem enclosed_append (h : Derives k ts t) {us : List Lexeme} (hus : us ≠ []) :
    enclosed (ts ++ us) = false := by
  induction h generalizing us with
  | number => rfl
  | name _ => rfl
  | call _ _ => rfl
  | paren h _ =>
    rw [List.cons_append, List.append_assoc, enclosed, h.closesLast_append 0]
    simpa [closesLast] using hus
  | neg _ _ _ => rfl
  | binary _ _ _ iht _ =>
    rw [List.append_assoc]
    exact iht (by simp)

end Derives

def marks : List Char := '\'' :: '"' :: '(' :: ')' :: operators

theorem not_mem_marks_of_isWordChar {c : Char} (h : isWordChar c = true) : c ∉ marks := by
  intro hc
  have hall : marks.all (fun a => !isWordChar a) = true := by decide
  simpa [h] using List.all_eq_true.1 hall c hc

theorem not_mem_marks_of_isAsciiBlank {c : Char} (h : isAsciiBlank c = true) : c ∉ marks := by
  intro hc
  have hall : marks.all (fun a => !isAsciiBlank a) = true := by decide
  simpa [h] using List.all_eq_true.1 hall c hc

theorem hasOperator_append {w : List Char} (hw : ∀ c ∈ w, c ∉ marks) (d : Int) (s : List Char) :
    hasOperator d (w ++ s) = hasOperator d s := by
  induction w with
  | nil => rfl
  | cons c w ih =>
    have hc := hw c List.mem_cons_self
    simp only [marks, List.mem_cons, not_or] at hc
    obtain ⟨hquote, hdouble, hopen, hclose, hop⟩ := hc
    rw [List.cons_append, hasOperator, if_neg (not_or.2 ⟨hquote, hdouble⟩), if_neg hopen,
      if_neg hclose, List.contains_eq_mem, decide_eq_false hop, Bool.false_and, Bool.false_or]
    exact ih fun a ha => hw a (List.mem_cons_of_mem _ ha)

theorem closesAtEnd_append {w : List Char} (hw : ∀ c ∈ w, c ∉ marks) (d : Nat) (s : List Char) :
    closesAtEnd d (w ++ s) = closesAtEnd d s := by
  induction w with
  | nil => rfl
  | cons c w ih =>
    have hc := hw c List.mem_cons_self
    simp only [marks, List.mem_cons, not_or] at hc
    obtain ⟨-, -, hopen, hclose, -⟩ := hc
    rw [List.cons_append, closesAtEnd, if_neg hopen, if_neg hclose]
    exact ih fun a ha => hw a (List.mem_cons_of_mem _ ha)

namespace Lexes

variable {s : List Char} {ls : List Lexeme}

theorem hasOperator_eq (h : Lexes s ls) (d : Int) : hasOperator d s = operatorAt d ls := by
  induction h generalizing d with
  | nil => rw [hasOperator, operatorAt]
  | @blank c s ls hc _ ih =>
    rw [← ih]
    exact hasOperator_append (w := [c]) (by simpa using not_mem_marks_of_isAsciiBlank hc) d s
  | @lexeme l s ls hl _ _ ih =>
    have hrun {w : List Char} (hw : ∀ c ∈ w, isWordChar c = true) :
        hasOperator d (w ++ s) = operatorAt d ls := by
      rw [hasOperator_append (fun c hc => not_mem_marks_of_isWordChar (hw c hc)), ih]
    cases l with
    | number w => exact hrun (Lexeme.isWordChar_number hl)
    | word w => exact hrun (Lexeme.isWordChar_word hl)
    | op o => cases o <;> simp [Lexeme.text, Op.text, hasOperator, operatorAt, operators, ih]
    | opening => simp [Lexeme.text, hasOperator, operatorAt, ih]
    | closing => simp [Lexeme.text, hasOperator, operatorAt, ih]

theorem closesLast_of_closesAtEnd (h : Lexes s ls) {d : Nat} (hd : closesAtEnd d s = true) :
    closesLast d ls = true := by
  induction h generalizing d with
  | nil => cases hd
  | @blank c s ls hc _ ih =>
    rw [← List.singleton_append, closesAtEnd_append] at hd
    · exact ih hd
    · simpa using not_mem_marks_of_isAsciiBlank hc
  | @lexeme l s ls hl _ hs ih =>
    have hrun {w : List Char} (hw : ∀ c ∈ w, isWordChar c = true)
        (hd : closesAtEnd d (w ++ s) = true) : closesLast d ls = true := by
      rw [closesAtEnd_append fun c hc => not_mem_marks_of_isWordChar (hw c hc)] at hd
      exact ih hd
    cases l with
    | number w => exact hrun (Lexeme.isWordChar_number hl) hd
    | word w => exact hrun (Lexeme.isWordChar_word hl) hd
    | op o =>
      apply ih
      cases o <;> simpa [Lexeme.text, Op.text, closesAtEnd] using hd
    | opening =>
      apply ih
      simpa [Lexeme.text, closesAtEnd] using hd
    | closing =>
      rw [Lexeme.text, List.singleton_append, closesAtEnd, if_neg (by decide), if_pos rfl] at hd
      rw [closesLast]
      by_cases hd₁ : d = 1
      · rw [if_pos hd₁, List.isEmpty_iff] at hd
        subst hd
        rw [if_pos hd₁, hs.of_nil]
        rfl
      · rw [if_neg hd₁] at hd ⊢
        exact ih hd

theorem enclosed_of_isWrapped (h : Lexes s ls) (hs : isWrapped s = true) : enclosed ls = true := by
  unfold isWrapped at hs
  split at hs
  · next r =>
    obtain ⟨ms, rfl, hms⟩ := of_lexeme (l := .opening) trivial (fun _ _ => rfl) h
    exact closesLast_of_closesAtEnd hms hs
  · cases hs

end Lexes

theorem head_of_derives {s : List Char} {ls : List Lexeme} {k : Nat} {t : Tree}
    (h : Lexes s ls) (ht : Derives k ls t) :
    ∃ c r, s = c :: r ∧ c ≠ '=' ∧ c ≠ '>' := by
  cases h with
  | nil => exact absurd rfl ht.ne_nil
  | @blank c s _ hc _ =>
    refine ⟨c, s, rfl, ?_, ?_⟩
    · rintro rfl
      cases hc
    · rintro rfl
      cases hc
  | @lexeme l s ls hl _ _ =>
    obtain ⟨c, w, hcw⟩ := List.exists_cons_of_ne_nil (Lexeme.text_ne_nil hl)
    refine ⟨c, w ++ s, by rw [hcw, List.cons_append], ?_⟩
    have hc : c ∈ l.text := by
      rw [hcw]
      exact List.mem_cons_self
    have hrun (hword : isWordChar c = true) : c ≠ '=' ∧ c ≠ '>' := by
      constructor
      · rintro rfl
        cases hword
      · rintro rfl
        cases hword
    cases l with
    | number v => exact hrun (Lexeme.isWordChar_number hl c hc)
    | word v => exact hrun (Lexeme.isWordChar_word hl c hc)
    | op o =>
      cases ht.head_op rfl
      cases hcw
      decide
    | opening =>
      cases hcw
      decide
    | closing =>
      cases hcw
      decide

/-- A text that is not compound can stand as an operand of any operator. -/
theorem tight_of_isCompound {s : List Char} {ls : List Lexeme} {t : Tree} (hs : Lexes s ls)
    (ht : Derives 1 ls t) (hc : isCompound s = false) (k : Nat) : Derives k ls t := by
  have hcases : enclosed ls = true ∨ operatorAt 0 ls = false := by
    by_cases hw : isWrapped s = true
    · exact .inl (hs.enclosed_of_isWrapped hw)
    · rw [Bool.not_eq_true] at hw
      simp only [isCompound, hw, Bool.not_false, Bool.true_and, Bool.or_eq_false_iff] at hc
      rw [← hs.hasOperator_eq]
      exact .inr hc.1.1
  cases ht with
  | number => exact .number
  | name hn => exact .name hn
  | call h => exact .call h
  | paren h => exact .paren h
  | neg _ _ => simp [enclosed, operatorAt] at hcases
  | @binary _ o ts us t u ho ht hu =>
    have hop : operatorAt 0 (ts ++ .op o :: us) = true := by
      apply ht.operatorAt_append
      cases o <;> simp_all [operatorAt, Op.level]
    rw [ht.enclosed_append (by simp), hop] at hcases
    obtain h | h := hcases
    · cases h
    · cases h

end MetricSql.Expr.Arithmetic
