import MetricSql.Proofs.Arithmetic.Lexing
import MetricSql.Proofs.Json.NumberForm
import MetricSql.Proofs.Text.Pieces
import MetricSql.Query.Filter

namespace MetricSql

open Text

def Comparison.asksMembership : Comparison → Bool
  | isIn | notIn => true
  | _ => false

namespace Sql

inductive Literal
  | null
  | bool (b : Bool)
  | number (s : List Char)
  | string (s : List Char)
  deriving DecidableEq

/-- A comparison of a field with one literal, or with a list of them where it asks for membership. -/
structure Condition where
  field : String
  op : Comparison
  literals : List Literal
  deriving DecidableEq

/-- The lexical pieces of conditions. A quoted one is the value between its quotes. -/
inductive Token
  | bare (s : List Char)
  | quoted (s : List Char)
  | mark (c : Char)
  deriving DecidableEq

def isMark (c : Char) : Bool := c == '(' || c == ')' || c == ','

def isSign (c : Char) : Bool := c == '<' || c == '>' || c == '='

/-- Whether `d` goes on with a bare token that starts with `c`. Words and numbers end before signs,
and signs before words and numbers. -/
def goesOn (c d : Char) : Bool :=
  !(isAsciiBlank d || isMark d || d == '\'') && isSign d == isSign c

def tokens? : List Char → Option (List Token)
  | [] => some []
  | c :: r =>
    if isAsciiBlank c then tokens? r
    else if isMark c then (tokens? r).map (.mark c :: ·)
    else if c = '\'' then
      match Pieces.ofOpened? (quotedSpan '\'' r).1 with
      | some (s, _) => (tokens? (quotedSpan '\'' r).2).map (.quoted s :: ·)
      | none => none
    else (tokens? (r.dropWhile (goesOn c))).map (.bare (c :: r.takeWhile (goesOn c)) :: ·)
termination_by s => s.length
decreasing_by
  · simp
  · simp
  · exact Nat.lt_succ_of_le (quotedSpan_length_le _ _)
  · exact Nat.lt_succ_of_le (List.dropWhile_suffix _).length_le

def Token.literal? : Token → Option Literal
  | bare s =>
    if s = "NULL".toList then some .null
    else if s = "true".toList then some (.bool true)
    else if s = "false".toList then some (.bool false)
    else if Json.isNumber s then some (.number s)
    else none
  | quoted s => some (.string s)
  | mark _ => none

def readComparison? : List Token → Option (Comparison × List Token)
  | .bare s :: r =>
    if s = "NOT".toList then
      match r with
      | .bare t :: r => if t = "IN".toList then some (.notIn, r) else none
      | _ => none
    else (Named.all.find? fun op : Comparison => op.text.toList = s).map (·, r)
  | _ => none

def readMembers? : List Token → Option (List Literal × List Token)
  | t :: .mark c :: r =>
    match t.literal? with
    | some l =>
      if c = ',' then (readMembers? r).map fun p => (l :: p.1, p.2)
      else if c = ')' then some ([l], r)
      else none
    | none => none
  | _ => none

def readLiterals? (op : Comparison) : List Token → Option (List Literal × List Token)
  | t :: r =>
    if op.asksMembership then if t = .mark '(' then readMembers? r else none
    else t.literal?.map ([·], r)
  | [] => none

def readCondition? : List Token → Option (Condition × List Token)
  | .bare s :: r =>
    if Expr.Arithmetic.isName s then
      match readComparison? r with
      | some (op, r) => (readLiterals? op r).map fun p => (⟨.ofList s, op, p.1⟩, p.2)
      | none => none
    else none
  | _ => none

variable {t : Token} {ts r : List Token} {op : Comparison} {ls : List Literal} {c : Condition}
  {s rest : List Char}

theorem readComparison?_suffix (h : readComparison? ts = some (op, r)) : r <:+ ts := by
  unfold readComparison? at h
  split at h
  · split at h
    · split at h
      · split at h
        · obtain ⟨-, rfl⟩ := Prod.mk.inj (Option.some.inj h)
          exact ⟨[_, _], rfl⟩
        · cases h
      · cases h
    · obtain ⟨op', -, hr⟩ := Option.map_eq_some_iff.1 h
      obtain ⟨-, rfl⟩ := Prod.mk.inj hr
      exact List.suffix_cons ..
  · cases h

theorem readMembers?_suffix (h : readMembers? ts = some (ls, r)) : r <:+ ts := by
  induction ts using readMembers?.induct generalizing ls with
  | case1 t r' l hl ih =>
    rw [readMembers?, hl] at h
    obtain ⟨p, hp, hr⟩ := Option.map_eq_some_iff.1 h
    obtain ⟨-, rfl⟩ := Prod.mk.inj hr
    exact (ih hp).trans ⟨[_, _], rfl⟩
  | case2 t r' l hl hne =>
    rw [readMembers?, hl] at h
    obtain ⟨-, rfl⟩ := Prod.mk.inj (Option.some.inj h)
    exact ⟨[_, _], rfl⟩
  | case3 t c r' l hl hcomma hclose =>
    rw [readMembers?, hl] at h
    simp [hcomma, hclose] at h
  | case4 t c r' hl =>
    rw [readMembers?, hl] at h
    cases h
  | case5 ts hts =>
    rw [readMembers?] at h
    · cases h
    · exact hts

theorem readLiterals?_suffix (h : readLiterals? op ts = some (ls, r)) : r <:+ ts := by
  cases ts with
  | nil => cases h
  | cons t ts =>
    rw [readLiterals?] at h
    split at h
    · split at h
      · exact (readMembers?_suffix h).trans (List.suffix_cons ..)
      · cases h
    · obtain ⟨l, -, hr⟩ := Option.map_eq_some_iff.1 h
      obtain ⟨-, rfl⟩ := Prod.mk.inj hr
      exact List.suffix_cons ..

theorem readCondition?_length_lt (h : readCondition? ts = some (c, r)) : r.length < ts.length := by
  unfold readCondition? at h
  split at h
  · split at h
    · split at h
      · next hop =>
        obtain ⟨p, hp, hr⟩ := Option.map_eq_some_iff.1 h
        obtain ⟨-, rfl⟩ := Prod.mk.inj hr
        exact Nat.lt_succ_of_le
          ((readLiterals?_suffix hp).trans (readComparison?_suffix hop)).length_le
      · cases h
    · cases h
  · cases h

def readConditions? (ts : List Token) : Option (List Condition) :=
  match _h : readCondition? ts with
  | some (c, []) => some [c]
  | some (c, t :: r) =>
    if t = .bare "AND".toList then (readConditions? r).map (c :: ·) else none
  | none => none
termination_by ts.length
decreasing_by exact Nat.lt_of_succ_lt (readCondition?_length_lt _h)

def conditions? (s : String) : Option (List Condition) := (tokens? s.toList).bind readConditions?

theorem readConditions?_last (h : readCondition? ts = some (c, [])) :
    readConditions? ts = some [c] := by
  rw [readConditions?]
  split <;> simp_all

theorem readConditions?_and (h : readCondition? ts = some (c, .bare "AND".toList :: r)) :
    readConditions? ts = (readConditions? r).map (c :: ·) := by
  rw [readConditions?]
  split <;> simp_all

theorem readConditions?_comma
    (h : ∀ c r, readCondition? ts = some (c, r) → r.head? = some (.mark ',')) :
    readConditions? ts = none := by
  rw [readConditions?]
  split
  · next hread => cases h _ _ hread
  · next hread =>
    obtain rfl := Option.some.inj (h _ _ hread)
    rw [if_neg (by decide)]
  · rfl

def Stops (s : List Char) : Prop := ∀ c ∈ s.head?, isAsciiBlank c || isMark c

theorem stops_cons {c : Char} (h : (isAsciiBlank c || isMark c) = true) : Stops (c :: s) := by
  rintro d ⟨⟩
  exact h

/-- The text splits into the tokens, whatever follows it that ends them. -/
def LexesTo (s : List Char) (ts : List Token) : Prop :=
  ∀ rest, Stops rest → tokens? (s ++ rest) = (tokens? rest).map (ts ++ ·)

theorem LexesTo.tokens? (h : LexesTo s ts) : tokens? s = some ts := by
  have hread := h [] (by simp [Stops])
  rwa [List.append_nil, Sql.tokens?, Option.map_some, List.append_nil] at hread

theorem LexesTo.nil : LexesTo [] [] := fun rest _ => by simp

theorem LexesTo.append {s' : List Char} {ts' : List Token} (h : LexesTo s ts)
    (h' : LexesTo s' ts') (hstop : Stops s') (hne : s' ≠ []) : LexesTo (s ++ s') (ts ++ ts') := by
  intro rest hrest
  have hstops : Stops (s' ++ rest) := by
    obtain ⟨c, t, rfl⟩ := List.exists_cons_of_ne_nil hne
    exact hstop
  rw [List.append_assoc, h _ hstops, h' _ hrest, Option.map_map]
  simp [Function.comp_def]

theorem LexesTo.blank (h : LexesTo s ts) : LexesTo (' ' :: s) ts := by
  intro rest hrest
  rw [List.cons_append, Sql.tokens?, if_pos (by decide)]
  exact h rest hrest

theorem LexesTo.mark {c : Char} (hc : isMark c = true) (h : LexesTo s ts) :
    LexesTo (c :: s) (.mark c :: ts) := by
  have hblank : isAsciiBlank c = false := by
    simp only [isMark, Bool.or_eq_true, beq_iff_eq] at hc
    obtain (rfl | rfl) | rfl := hc <;> decide
  intro rest hrest
  rw [List.cons_append, Sql.tokens?, hblank, hc, h rest hrest, Option.map_map]
  rfl

theorem lexesTo_literal (s : String) : LexesTo (literal s).toList [.quoted s.toList] := by
  intro rest hrest
  have hhead : rest.head? ≠ some '\'' := fun h => absurd (hrest _ h) (by decide)
  have hopened := Pieces.ofOpened?_doubleQuotes s.toList (r := []) (by simp)
  rw [literal, String.toList_ofList, List.cons_append, List.append_assoc, List.singleton_append,
    Sql.tokens?, if_neg (by decide), if_neg (by decide), if_pos rfl,
    quotedSpan_doubleQuotes s.toList hhead, hopened]
  rfl

theorem lexesTo_bare (hne : s ≠ []) (hs : ∀ c ∈ s, ∀ d ∈ s, goesOn c d = true) :
    LexesTo s [.bare s] := by
  obtain ⟨c, s, rfl⟩ := List.exists_cons_of_ne_nil hne
  have hc := hs c List.mem_cons_self
  have hplain : isAsciiBlank c = false ∧ isMark c = false ∧ c ≠ '\'' := by
    simpa [goesOn, and_assoc] using hc c List.mem_cons_self
  have hrest : ∀ d ∈ s, goesOn c d = true := fun d hd => hc d (List.mem_cons_of_mem c hd)
  intro rest hstops
  have hends : ∀ d ∈ rest.head?, goesOn c d = false := fun d hd => by
    simp only [goesOn, hstops d hd, Bool.true_or, Bool.not_true, Bool.false_and]
  obtain ⟨htake, hdrop⟩ := takeWhile_run hrest hends
  rw [List.cons_append, Sql.tokens?, hplain.1, hplain.2.1, if_neg Bool.false_ne_true,
    if_neg Bool.false_ne_true, if_neg hplain.2.2, htake, hdrop]
  rfl

theorem goesOn_of_wordChars {c d : Char} (hc : Json.isNumberChar c = true ∨ Expr.isWordChar c = true)
    (hd : Json.isNumberChar d = true ∨ Expr.isWordChar d = true) : goesOn c d = true := by
  have hplain (c : Char) (hc : Json.isNumberChar c = true ∨ Expr.isWordChar c = true) :
      (isAsciiBlank c || isMark c || c == '\'') = false ∧ isSign c = false := by
    rw [← Bool.or_eq_false_iff, ← Bool.not_eq_true]
    intro h
    simp only [isAsciiBlank, isMark, isSign, Bool.or_eq_true, beq_iff_eq, or_assoc] at h
    revert hc
    rcases h with rfl | rfl | rfl | rfl | rfl | rfl | rfl | rfl | rfl | rfl | rfl | rfl
    all_goals decide
  obtain ⟨-, hsign⟩ := hplain c hc
  obtain ⟨hrest, hsign'⟩ := hplain d hd
  rw [goesOn, hrest, hsign, hsign']
  rfl

theorem lexesTo_name (h : Expr.Arithmetic.isName s = true) : LexesTo s [.bare s] := by
  obtain ⟨⟨c, t, rfl, -⟩, hs⟩ := Expr.Arithmetic.isName_eq_true h
  exact lexesTo_bare (by simp) fun c hc d hd => goesOn_of_wordChars (.inr (hs c hc)) (.inr (hs d hd))

theorem lexesTo_intercalate {sep : List Char} {seps : List Token} {l : List (List Char)}
    {l' : List (List Token)} (hstop : Stops sep) (hne : sep ≠ [])
    (hsep : ∀ {s ts}, LexesTo s ts → LexesTo (sep ++ s) (seps ++ ts))
    (h : List.Forall₂ LexesTo l l') : LexesTo (sep.intercalate l) (seps.intercalate l') := by
  induction h with
  | nil => exact LexesTo.nil
  | cons hs hl ih =>
    cases hl with
    | nil =>
      rw [List.intercalate_singleton, List.intercalate_singleton]
      exact hs
    | cons hs' hl =>
      rw [List.intercalate_cons_cons, List.intercalate_cons_cons, List.append_assoc,
        List.append_assoc]
      refine hs.append (hsep ih) ?_ (by simp [hne])
      obtain ⟨c, t, rfl⟩ := List.exists_cons_of_ne_nil hne
      exact hstop

end Sql

end MetricSql
