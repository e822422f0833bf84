import MetricSql.Proofs.Expression.Nesting
import MetricSql.Proofs.Expression.Replacement

namespace MetricSql.Expr

open Text Arithmetic

def Token.masked : Token → List Char
  | .literal l => maskOf l
  | t => t.text

def masked (s : List Char) : List Char := (scan s).flatMap Token.masked

def Outside (before : List Char) : Prop := ∀ x, x <:+ before → nesting x ≤ 0

instance (before : List Char) : Decidable (Outside before) :=
  decidable_of_iff (∀ x ∈ before.tails, nesting x ≤ 0) (by simp only [Outside, List.mem_tails])

def OperatorOutside (s : List Char) : Prop :=
  ∃ before c after, s = before ++ c :: after ∧ Outside before ∧ c ∈ operators

def WordOutside (delimits : Char → Prop) (s : List Char) : Prop :=
  ∃ before a w b after, s = before ++ a :: (w ++ b :: after) ∧ Outside before ∧ delimits a ∧
    delimits b ∧ (foldCase w = "and".toList ∨ foldCase w = "or".toList)

/-- A text whose quotes all belong to literals and whose parentheses all stand outside of them, none
of them closing what is not open. -/
structure Tidy (s : List Char) : Prop where
  names : ∀ n closed, .quoted n closed ∈ scan s → '\'' ∉ n ∧ '"' ∉ n
  literals : ∀ l, .literal l ∈ scan s → '(' ∉ l ∧ ')' ∉ l
  matched : ∀ p, p <+: masked s → 0 ≤ nesting p

variable {s u w x y z : List Char} {t : Token} {ts before after : List Token}

theorem forall₂_flatMap_masked {R : Char → Char → Prop} (hrefl : ∀ c, R c c)
    (hliteral : ∀ l, .literal l ∈ ts → ∀ c ∈ l, R c '\'') :
    List.Forall₂ R (ts.flatMap Token.text) (ts.flatMap Token.masked) := by
  induction ts with
  | nil => exact .nil
  | cons t ts ih =>
    rw [List.flatMap_cons, List.flatMap_cons]
    refine List.rel_append ?_ (ih fun l hl => hliteral l (List.mem_cons_of_mem _ hl))
    cases t with
    | literal l =>
      rw [Token.text, Token.masked, maskOf, List.forall₂_map_right_iff, List.forall₂_same]
      exact hliteral l List.mem_cons_self
    | _ => exact List.forall₂_same.2 fun c _ => hrefl c

theorem forall₂_masked {R : Char → Char → Prop} (hrefl : ∀ c, R c c)
    (hliteral : ∀ l, .literal l ∈ scan s → ∀ c ∈ l, R c '\'') : List.Forall₂ R s (masked s) := by
  have h := forall₂_flatMap_masked hrefl hliteral
  rwa [(splits_scan s).flatMap_text] at h

theorem maskQuoted_append (hsingle : '\'' ∉ w) (hdouble : '"' ∉ w) (s : List Char) :
    maskQuoted (w ++ s) = w ++ maskQuoted s := by
  induction w with
  | nil => rfl
  | cons c w ih =>
    rw [List.mem_cons, not_or] at hsingle hdouble
    rw [List.cons_append, maskQuoted, if_neg (not_or.2 ⟨Ne.symm hsingle.1, Ne.symm hdouble.1⟩),
      ih hsingle.2 hdouble.2, List.cons_append]

theorem Token.Stands.maskQuoted_append {rest : List Char} (h : t.Stands rest)
    (hname : ∀ n closed, t = .quoted n closed → '\'' ∉ n ∧ '"' ∉ n) :
    maskQuoted (t.text ++ rest) = t.masked ++ maskQuoted rest := by
  have hword {s : List Char} (hs : ∀ c ∈ s, isWordChar c = true) : '\'' ∉ s ∧ '"' ∉ s :=
    ⟨fun hc => absurd (hs _ hc) (by decide), fun hc => absurd (hs _ hc) (by decide)⟩
  cases h with
  | literal hq hs hrest =>
    rw [Token.text, Token.masked, List.cons_append, List.append_assoc, List.singleton_append,
      maskQuoted, if_pos hq, quotedSpan_closed hs hrest]
  | openLiteral hq hs =>
    rw [Token.text, Token.masked, List.append_nil, maskQuoted.eq_def]
    dsimp only
    rw [if_pos hq, quotedSpan_open hs]
  | quoted hn =>
    obtain ⟨hsingle, hdouble⟩ := hname _ _ rfl
    exact Expr.maskQuoted_append (by simp [Token.text, hsingle, backtick])
      (by simp [Token.text, hdouble, backtick]) _
  | openQuoted hn =>
    obtain ⟨hsingle, hdouble⟩ := hname _ _ rfl
    exact Expr.maskQuoted_append (by simp [Token.text, hsingle, backtick])
      (by simp [Token.text, hdouble, backtick]) _
  | number hc hs _ =>
    obtain ⟨hsingle, hdouble⟩ := hword (List.forall_mem_cons.2 ⟨isWordChar_of_isDigit hc, hs⟩)
    exact Expr.maskQuoted_append hsingle hdouble _
  | @word c s _ hc hs _ =>
    obtain ⟨hsingle, hdouble⟩ :=
      hword (List.forall_mem_cons.2 ⟨isWordChar_of_isWordStart hc, hs⟩)
    exact Expr.maskQuoted_append hsingle hdouble _
  | @other c _ hc =>
    refine Expr.maskQuoted_append (List.mem_singleton.not.2 ?_) (List.mem_singleton.not.2 ?_) _ <;>
      (rintro rfl; cases hc)

theorem maskQuoted_eq_masked (h : ∀ n closed, .quoted n closed ∈ scan s → '\'' ∉ n ∧ '"' ∉ n) :
    maskQuoted s = masked s := by
  have hsplit := splits_scan s
  unfold masked
  generalize scan s = ts at h hsplit
  induction hsplit with
  | nil => rw [maskQuoted, List.flatMap_nil]
  | cons ht _ ih =>
    rw [List.flatMap_cons, ht.maskQuoted_append fun n closed htoken =>
        h n closed (htoken ▸ List.mem_cons_self),
      ih fun n closed hn => h n closed (List.mem_cons_of_mem _ hn)]

def SameParens (a b : Char) : Prop := (a = '(' ↔ b = '(') ∧ (a = ')' ↔ b = ')')

theorem closesAtEnd_congr (h : List.Forall₂ SameParens s u) (d : Nat) :
    closesAtEnd d s = closesAtEnd d u := by
  induction h generalizing d with
  | nil => rfl
  | @cons a b s u hab hrest ih =>
    have hempty : s.isEmpty = u.isEmpty := by
      cases hrest <;> rfl
    rw [closesAtEnd, closesAtEnd, ih, ih, ih, hempty]
    simp only [hab.1, hab.2]

theorem isWrapped_congr (h : List.Forall₂ SameParens s u) : isWrapped s = isWrapped u := by
  cases h with
  | nil => rfl
  | @cons a b s u hab hrest =>
    by_cases ha : a = '('
    · obtain rfl := hab.1.1 ha
      subst ha
      exact closesAtEnd_congr hrest 1
    · have hb : b ≠ '(' := fun hb => ha (hab.1.2 hb)
      simp [isWrapped, ha, hb]

/-- Where no literal holds a parenthesis, masking does not change what encloses a text. -/
theorem enclosed_masked_iff (h : ∀ l, .literal l ∈ scan s → '(' ∉ l ∧ ')' ∉ l) :
    Enclosed (masked s) ↔ Enclosed s := by
  have hall : List.Forall₂ SameParens s (masked s) :=
    forall₂_masked (fun c => ⟨Iff.rfl, Iff.rfl⟩) fun l hl c hc => by
      obtain ⟨hopen, hclose⟩ := h l hl
      constructor
      · exact iff_of_false (fun hc' => hopen (hc' ▸ hc)) (by decide)
      · exact iff_of_false (fun hc' => hclose (hc' ▸ hc)) (by decide)
  rw [← isWrapped_iff, ← isWrapped_iff, isWrapped_congr hall]

theorem operatorAt_of_operatorOutside (hmatched : ∀ p, p <+: s → 0 ≤ nesting p)
    (h : OperatorOutside s) : OperatorAt 0 s := by
  obtain ⟨before, c, after, rfl, hout, hc⟩ := h
  have hle := hout before List.suffix_rfl
  have hge := hmatched before (List.prefix_append _ _)
  exact ⟨before, c, after, rfl, by omega, hc⟩

theorem eq_of_forall₂_quote (hu : '\'' ∉ u)
    (h : List.Forall₂ (fun a b => b = a ∨ b = '\'') s u) : s = u := by
  induction h with
  | nil => rfl
  | cons hab _ ih =>
    rw [List.mem_cons, not_or] at hu
    obtain rfl | rfl := hab
    · rw [ih hu.2]
    · exact absurd rfl hu.1

theorem infix_of_infix_masked (hw : '\'' ∉ w) (h : w <:+: masked s) : w <:+: s := by
  obtain ⟨x, y, hxy⟩ := h
  have hall : List.Forall₂ (fun a b => b = a ∨ b = '\'') s (x ++ (w ++ y)) := by
    rw [← List.append_assoc, hxy]
    exact forall₂_masked (fun _ => .inl rfl) fun _ _ _ _ => .inr rfl
  have hpiece := List.forall₂_take_append _ _ _ (List.forall₂_drop_append _ _ _ hall)
  rw [← eq_of_forall₂_quote hw hpiece]
  exact (List.take_prefix _ _).isInfix.trans (List.drop_suffix _ _).isInfix

theorem infix_foldCase_of_wordOutside (h : WordOutside (· = ' ') (masked s)) :
    " and ".toList <:+: foldCase s ∨ " or ".toList <:+: foldCase s := by
  obtain ⟨before, a, w, b, after, hs, -, rfl, rfl, hw⟩ := h
  have hquote : '\'' ∉ w := by
    intro hmem
    have hfold : '\'' ∈ foldCase w := List.mem_map.2 ⟨_, hmem, rfl⟩
    obtain hw | hw := hw <;> (rw [hw] at hfold; revert hfold; decide)
  have hinfix : (' ' :: (w ++ [' '])) <:+: s :=
    infix_of_infix_masked (by simpa using hquote) ⟨before, after, by simp [hs]⟩
  have hfold : (' ' :: (foldCase w ++ [' '])) <:+: foldCase s := by
    have hmap := hinfix.map Char.toLower
    rwa [List.map_cons, List.map_append] at hmap
  obtain hw | hw := hw
  · rw [hw] at hfold
    exact .inl hfold
  · rw [hw] at hfold
    exact .inr hfold

def Compound (delimits : Char → Prop) (s : List Char) : Prop :=
  OperatorOutside (masked s) ∨ WordOutside delimits (masked s)

theorem Tidy.isCompound (htidy : Tidy s) (h : Compound (· = ' ') s) (hopen : ¬Enclosed (masked s)) :
    isCompound s = true := by
  rw [enclosed_masked_iff htidy.literals] at hopen
  refine isCompound_iff.2 ⟨hopen, ?_⟩
  rw [maskQuoted_eq_masked htidy.names]
  exact h.imp (operatorAt_of_operatorOutside htidy.matched) infix_foldCase_of_wordOutside

variable {sub : String → Option String} {n r : String}

theorem getElem?_replacedTexts (b : Bool) (before : List Token) :
    (replacedTexts sub b (before ++ t :: after))[before.length]? =
      some (match (reference? t after).bind sub with
        | some s => place (b && before.all Token.isBlank && after.all Token.isBlank) (trim s.toList)
        | none => t.text) := by
  induction before generalizing b with
  | nil =>
    rw [List.nil_append, replacedTexts, List.all_nil, Bool.and_true]
    rfl
  | cons u before ih =>
    rw [List.cons_append, replacedTexts, List.length_cons, List.getElem?_cons_succ, ih,
      List.all_cons, Bool.and_assoc b]

theorem Token.isBlank_of_mem_text {c : Char} (h : t.isBlank = true) (hc : c ∈ t.text) :
    Text.isBlank c = true := by
  cases t with
  | other a =>
    obtain rfl := List.mem_singleton.1 hc
    exact h
  | _ => cases h

theorem exists_not_isBlank (h : ∃ c ∈ (before ++ after).flatMap Token.text, Text.isBlank c = false) :
    (before.all Token.isBlank && after.all Token.isBlank) = false := by
  obtain ⟨c, hc, hblank⟩ := h
  obtain ⟨t, ht, hct⟩ := List.mem_flatMap.1 hc
  rw [← List.all_append, ← Bool.not_eq_true, List.all_eq_true]
  intro hall
  rw [Token.isBlank_of_mem_text (hall t ht) hct] at hblank
  cases hblank

theorem place_eq_enclosed_iff : place false s = '(' :: (s ++ [')']) ↔ isCompound s = true := by
  unfold place
  by_cases h : isCompound s = true
  · simp [h]
  · simp only [h]
    refine iff_of_false (fun hs => ?_) (by simp)
    have hlength := congrArg List.length hs
    simp only [List.length_cons, List.length_append, Bool.and_false, Bool.false_eq_true,
      if_false] at hlength
    omega

/-- What is put in the place of a reference with something else beside it stands in one added pair
of parentheses exactly when it is not enclosed, counting the parentheses in literals too, and has an
operator at depth zero or one of the words between single spaces. So all tidy compound texts do that
are not enclosed. -/
theorem compound_in_parentheses {expr : String} (sub : String → Option String)
    (hsplit : Splits expr.toList (before ++ t :: after)) (href : RefersTo t after n)
    (hsub : sub n = some r)
    (hbeside : ∃ c ∈ (before ++ after).flatMap Token.text, Text.isBlank c = false) :
    (rewrite sub expr).toList = (replacedTexts sub true (before ++ t :: after)).flatten ∧
      ((replacedTexts sub true (before ++ t :: after))[before.length]? =
          some ('(' :: (trim r.toList ++ [')'])) ↔
        ¬Enclosed (trim r.toList) ∧ (OperatorAt 0 (maskQuoted (trim r.toList)) ∨
          " and ".toList <:+: foldCase (trim r.toList) ∨
          " or ".toList <:+: foldCase (trim r.toList))) ∧
      (Tidy (trim r.toList) → Compound (· = ' ') (trim r.toList) →
        ¬Enclosed (masked (trim r.toList)) →
        (replacedTexts sub true (before ++ t :: after))[before.length]? =
          some ('(' :: (trim r.toList ++ [')']))) := by
  have hafter : Splits (after.flatMap Token.text) after := by
    rw [List.append_cons] at hsplit
    exact hsplit.of_append
  have hplace : (replacedTexts sub true (before ++ t :: after))[before.length]? =
      some (place false (trim r.toList)) := by
    rw [getElem?_replacedTexts, hafter.reference?_eq_some.2 href, Option.bind_some, hsub,
      Bool.true_and, exists_not_isBlank hbeside]
  rw [hplace, Option.some_inj, place_eq_enclosed_iff]
  refine ⟨?_, isCompound_iff, fun htidy => htidy.isCompound⟩
  rw [toList_rewrite, ← splits_iff.1 hsplit]

def timesTokens : List Token := [.word ['x'], .other ' ', .other '*', .other ' ']

theorem compound_in_parentheses_product :
    Splits "x * m".toList (timesTokens ++ Token.word ['m'] :: []) ∧
      RefersTo (.word ['m']) [] "m" ∧ Tidy "a OR 'b'".toList ∧
      Compound (· = ' ') "a OR 'b'".toList ∧ ¬Enclosed (masked "a OR 'b'".toList) ∧
      (replacedTexts (fun n => if n = "m" then some " a OR 'b' " else none) true
          (timesTokens ++ Token.word ['m'] :: []))[4]? =
        some "(a OR 'b')".toList := by
  have hsplit : Splits "x * m".toList (timesTokens ++ Token.word ['m'] :: []) :=
    splits_iff.2 (by cbv)
  have href : RefersTo (.word ['m']) [] "m" := ⟨by cbv, by decide, not_opensCall_nil⟩
  have hscan : scan "a OR 'b'".toList =
      [.word ['a'], .other ' ', .word ['O', 'R'], .other ' ', .literal ['\'', 'b', '\'']] := by
    cbv
  have hmasked : masked "a OR 'b'".toList = "a OR '''".toList := by cbv
  have htidy : Tidy "a OR 'b'".toList := by
    refine ⟨by rw [hscan]; simp, by rw [hscan]; simp, fun p hp => ?_⟩
    rw [hmasked, ← List.mem_inits] at hp
    revert p
    decide
  have hcompound : Compound (· = ' ') "a OR 'b'".toList :=
    .inr ⟨['a'], ' ', ['O', 'R'], ' ', ['\'', '\'', '\''], by cbv, by decide, rfl, rfl, by decide⟩
  have hopen : ¬Enclosed (masked "a OR 'b'".toList) := by
    rw [hmasked, not_enclosed_iff]
    decide
  have htrim : trim " a OR 'b' ".toList = "a OR 'b'".toList := by cbv
  refine ⟨hsplit, href, htidy, hcompound, hopen, ?_⟩
  have h := compound_in_parentheses (fun n => if n = "m" then some " a OR 'b' " else none) hsplit
    href rfl ⟨'*', by decide, by decide⟩
  rw [htrim] at h
  exact h.2.2 htidy hcompound hopen

/-- Words between tabs are not seen, and parentheses in literals, parentheses that close nothing and
quotes in names are miscounted. -/
theorem compound_left_bare :
    (Compound (Text.isBlank · = true) "a\tand\tb".toList ∧ ¬Enclosed (masked "a\tand\tb".toList) ∧
      rewrite (fun n => if n = "m" then some "a\tand\tb" else none) "NOT m" = "NOT a\tand\tb") ∧
    (Compound (Text.isBlank · = true) "(a = '(') or (b = ')')".toList ∧
      ¬Enclosed (masked "(a = '(') or (b = ')')".toList) ∧
      rewrite (fun n => if n = "m" then some "(a = '(') or (b = ')')" else none) "x * m" =
        "x * (a = '(') or (b = ')')") ∧
    (Compound (Text.isBlank · = true) "a) + b".toList ∧ ¬Enclosed (masked "a) + b".toList) ∧
      rewrite (fun n => if n = "m" then some "a) + b" else none) "x * m" = "x * a) + b") ∧
    (Compound (Text.isBlank · = true) "\x60it's\x60 + b".toList ∧
      ¬Enclosed (masked "\x60it's\x60 + b".toList) ∧
      rewrite (fun n => if n = "m" then some "\x60it's\x60 + b" else none) "2 * m" =
        "2 * \x60it's\x60 + b") := by
  refine ⟨⟨.inr ⟨['a'], '\t', ['a', 'n', 'd'], '\t', ['b'], by cbv, by decide, by decide⟩,
      not_enclosed_iff.2 (by cbv), by cbv⟩,
    ⟨.inr ⟨"(a = ''')".toList, ' ', ['o', 'r'], ' ', "(b = ''')".toList, by cbv, by decide,
        by decide⟩, not_enclosed_iff.2 (by cbv), by cbv⟩,
    ⟨.inl ⟨['a', ')', ' '], '+', [' ', 'b'], by cbv, by decide, by decide⟩,
      not_enclosed_iff.2 (by cbv), by cbv⟩,
    ⟨.inl ⟨"\x60it's\x60 ".toList, '+', [' ', 'b'], by cbv, by decide, by decide⟩,
      not_enclosed_iff.2 (by cbv), by cbv⟩⟩

end MetricSql.Expr
