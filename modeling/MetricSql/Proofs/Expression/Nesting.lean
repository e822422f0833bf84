import Mathlib.Data.List.Infix
import MetricSql.Expr.Rewrite

namespace MetricSql.Expr

open Text

variable {c : Char} {d : Int} {s v w : List Char}

/-- How many parentheses a text opens and does not close. -/
def nesting (s : List Char) : Int := s.count '(' - s.count ')'

@[simp] theorem nesting_nil : nesting [] = 0 := rfl

theorem nesting_append (s t : List Char) : nesting (s ++ t) = nesting s + nesting t := by
  simp only [nesting, List.count_append]
  omega

theorem nesting_cons (c : Char) (s : List Char) : nesting (c :: s) = nesting [c] + nesting s :=
  nesting_append [c] s

@[simp] theorem nesting_opening : nesting ['('] = 1 := rfl

@[simp] theorem nesting_closing : nesting [')'] = -1 := rfl

theorem nesting_eq_zero (hopen : '(' ∉ s) (hclose : ')' ∉ s) : nesting s = 0 := by
  rw [nesting, List.count_eq_zero_of_not_mem hopen, List.count_eq_zero_of_not_mem hclose]
  rfl

theorem nesting_singleton (hopen : c ≠ '(') (hclose : c ≠ ')') : nesting [c] = 0 :=
  nesting_eq_zero (by simpa using hopen.symm) (by simpa using hclose.symm)

/-- The last character is the first one at which `d` open parentheses are closed. -/
def Closes (d : Int) (s : List Char) : Prop :=
  ∃ m, s = m ++ [')'] ∧ d + nesting m = 1 ∧ ∀ p, p <+: m → 0 < d + nesting p

def Enclosed (s : List Char) : Prop :=
  ∃ m, s = '(' :: (m ++ [')']) ∧ nesting m = 0 ∧ ∀ p, p <+: m → 0 ≤ nesting p

theorem not_closes_nil : ¬Closes d [] := by
  rintro ⟨m, h, -⟩
  simp at h

theorem closes_cons_iff :
    Closes d (c :: s) ↔ 0 < d ∧ (c = ')' ∧ d = 1 ∧ s = [] ∨ Closes (d + nesting [c]) s) := by
  constructor
  · rintro ⟨m, h, hm, hpos⟩
    refine ⟨by simpa using hpos [] (List.nil_prefix), ?_⟩
    cases m with
    | nil =>
      obtain ⟨rfl, rfl⟩ := List.cons.inj h
      exact .inl ⟨rfl, by simpa using hm, rfl⟩
    | cons a m =>
      obtain ⟨rfl, rfl⟩ := List.cons.inj h
      rw [nesting_cons] at hm
      refine .inr ⟨m, rfl, by omega, fun p hp => ?_⟩
      have hcons := hpos (c :: p) (List.cons_prefix_cons.2 ⟨rfl, hp⟩)
      rw [nesting_cons] at hcons
      omega
  · rintro ⟨hd, ⟨rfl, rfl, rfl⟩ | ⟨m, rfl, hm, hpos⟩⟩
    · refine ⟨[], rfl, rfl, fun p hp => ?_⟩
      rw [List.prefix_nil.1 hp]
      exact hd
    · refine ⟨c :: m, rfl, by rw [nesting_cons]; omega, fun p hp => ?_⟩
      obtain rfl | ⟨q, rfl, hq⟩ := List.prefix_cons_iff.1 hp
      · simpa using hd
      · have hrest := hpos q hq
        rw [nesting_cons]
        omega

theorem closesAtEnd_iff {d : Nat} (hd : 0 < d) : closesAtEnd d s = true ↔ Closes d s := by
  induction s generalizing d with
  | nil => exact iff_of_false Bool.false_ne_true not_closes_nil
  | cons c s ih =>
    rw [closesAtEnd, closes_cons_iff, and_iff_right (Int.natCast_pos.2 hd)]
    by_cases hopen : c = '('
    · subst hopen
      rw [if_pos rfl, ih (Nat.succ_pos d), nesting_opening, Int.natCast_succ]
      simp
    by_cases hclose : c = ')'
    · subst hclose
      rw [if_neg (by decide), if_pos rfl]
      by_cases hone : d = 1
      · subst hone
        rw [if_pos rfl, List.isEmpty_iff]
        refine ⟨fun h => .inl ⟨rfl, rfl, h⟩, ?_⟩
        rintro (⟨-, -, h⟩ | ⟨m, -, -, hpos⟩)
        · exact h
        · exact absurd (hpos [] List.nil_prefix) (by simp)
      · have hcast : ((d - 1 : Nat) : Int) = (d : Int) + nesting [')'] := by
          rw [nesting_closing]
          omega
        have hone' : (d : Int) ≠ 1 := by omega
        rw [if_neg hone, ih (by omega), hcast]
        simp [hone']
    · rw [if_neg hopen, if_neg hclose, ih hd, nesting_singleton hopen hclose, Int.add_zero]
      simp [hclose]

theorem isWrapped_iff : isWrapped s = true ↔ Enclosed s := by
  have hcloses (r : List Char) : Closes 1 r ↔
      ∃ m, r = m ++ [')'] ∧ nesting m = 0 ∧ ∀ p, p <+: m → 0 ≤ nesting p := by
    refine exists_congr fun m => and_congr_right fun _ => and_congr (by omega) ?_
    exact forall₂_congr fun p _ => by omega
  unfold isWrapped Enclosed
  split
  · next r =>
    rw [closesAtEnd_iff Nat.one_pos, Int.natCast_one, hcloses]
    simp
  · next hs =>
    refine iff_of_false Bool.false_ne_true ?_
    rintro ⟨m, rfl, -⟩
    exact hs _ rfl

theorem not_enclosed_iff : ¬Enclosed s ↔ isWrapped s = false := by
  rw [← isWrapped_iff, Bool.not_eq_true]

def OperatorAt (d : Int) (s : List Char) : Prop :=
  ∃ before c after, s = before ++ c :: after ∧ d + nesting before = 0 ∧ c ∈ operators

theorem not_operatorAt_nil : ¬OperatorAt d [] := by
  rintro ⟨before, c, after, h, -⟩
  simp at h

theorem operatorAt_cons_iff :
    OperatorAt d (c :: s) ↔ d = 0 ∧ c ∈ operators ∨ OperatorAt (d + nesting [c]) s := by
  constructor
  · rintro ⟨before, a, after, h, hd, ha⟩
    cases before with
    | nil =>
      obtain ⟨rfl, rfl⟩ := List.cons.inj h
      exact .inl ⟨by simpa using hd, ha⟩
    | cons b before =>
      obtain ⟨rfl, rfl⟩ := List.cons.inj h
      rw [nesting_cons] at hd
      exact .inr ⟨before, a, after, rfl, by omega, ha⟩
  · rintro (⟨rfl, hc⟩ | ⟨before, a, after, rfl, hd, ha⟩)
    · exact ⟨[], c, s, rfl, rfl, hc⟩
    · exact ⟨c :: before, a, after, rfl, by rw [nesting_cons]; omega, ha⟩

theorem operatorAt_append_iff (hw : ∀ c ∈ w, c ∉ operators) (hnesting : ∀ c ∈ w, nesting [c] = 0) :
    OperatorAt d (w ++ s) ↔ OperatorAt d s := by
  induction w with
  | nil => rfl
  | cons c w ih =>
    have hc := hw c List.mem_cons_self
    rw [List.cons_append, operatorAt_cons_iff, hnesting c List.mem_cons_self, Int.add_zero,
      ih (fun a ha => hw a (List.mem_cons_of_mem _ ha))
        fun a ha => hnesting a (List.mem_cons_of_mem _ ha)]
    simp [hc]

def maskOf (literal : List Char) : List Char := literal.map fun _ => '\''

theorem operatorAt_maskOf_iff : OperatorAt d (maskOf w ++ s) ↔ OperatorAt d s := by
  have hquote (c : Char) (hc : c ∈ maskOf w) : c = '\'' := by
    obtain ⟨-, -, rfl⟩ := List.mem_map.1 hc
    rfl
  refine operatorAt_append_iff (fun c hc => ?_) fun c hc => ?_
  · rw [hquote c hc]
    decide
  · rw [hquote c hc]
    rfl

/-- A text in which everything is masked that follows a quote, up to the quote that closes. -/
def maskQuoted : List Char → List Char
  | [] => []
  | c :: r =>
    if c = '\'' ∨ c = '"' then maskOf (c :: (quotedSpan c r).1) ++ maskQuoted (quotedSpan c r).2
    else c :: maskQuoted r
termination_by s => s.length
decreasing_by
  · exact Nat.lt_succ_of_le (quotedSpan_length_le _ _)
  · simp

theorem hasOperator_iff : hasOperator d s = true ↔ OperatorAt d (maskQuoted s) := by
  fun_induction hasOperator d s with
  | case1 =>
    rw [maskQuoted]
    exact iff_of_false Bool.false_ne_true not_operatorAt_nil
  | case2 d c r hquote ih => rw [maskQuoted, if_pos hquote, operatorAt_maskOf_iff, ih]
  | case3 d r hquote ih =>
    rw [maskQuoted, if_neg hquote, operatorAt_cons_iff, nesting_opening, ih]
    simp [operators]
  | case4 d r hquote hopen ih =>
    rw [maskQuoted, if_neg hquote, operatorAt_cons_iff, nesting_closing, ← Int.sub_eq_add_neg, ih]
    simp [operators]
  | case5 d c r hquote hopen hclose ih =>
    rw [maskQuoted, if_neg hquote, operatorAt_cons_iff, nesting_singleton hopen hclose,
      Int.add_zero, Bool.or_eq_true, ih, Bool.and_eq_true, List.contains_iff_mem, beq_iff_eq,
      and_comm]

theorem occurs_iff : occurs w s = true ↔ w <:+: s := by
  induction s with
  | nil => rw [occurs, List.isEmpty_iff, List.infix_nil]
  | cons c s ih =>
    rw [occurs, Bool.or_eq_true, ih, List.isPrefixOf_iff_prefix, List.infix_cons_iff]

/-- When a text is taken for more than one operand. -/
theorem isCompound_iff :
    isCompound s = true ↔ ¬Enclosed s ∧ (OperatorAt 0 (maskQuoted s) ∨
      " and ".toList <:+: foldCase s ∨ " or ".toList <:+: foldCase s) := by
  rw [isCompound, Bool.and_eq_true, Bool.not_eq_true', not_enclosed_iff, Bool.or_eq_true,
    Bool.or_eq_true, hasOperator_iff, occurs_iff, occurs_iff, or_assoc]

end MetricSql.Expr
