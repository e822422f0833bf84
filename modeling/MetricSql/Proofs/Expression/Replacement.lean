import MetricSql.Proofs.Expression.Tokens

namespace MetricSql.Expr

open Text

/-- The token is a name that something can be put in the place of: no keyword, and not the name of a
call. The tokens after it are `rest`. -/
structure RefersTo (t : Token) (rest : List Token) (n : String) : Prop where
  name : t.name? = some n.toList
  notKeyword : String.ofList (foldCase n.toList) ∉ keywords
  notCall : ¬OpensCall (rest.flatMap Token.text)

/-- What stands in the place of each token: the text that `sub` has for a reference, with or without
parentheses, and the token itself otherwise. -/
inductive Replaced (sub : String → Option String) : List Token → List (List Char) → Prop
  | nil : Replaced sub [] []
  | keep {t ts texts} : (∀ n, RefersTo t ts n → sub n = none) → Replaced sub ts texts →
      Replaced sub (t :: ts) (t.text :: texts)
  | replace {t ts texts n s p} : RefersTo t ts n → sub n = some s →
      p = trim s.toList ∨ p = '(' :: (trim s.toList ++ [')']) → Replaced sub ts texts →
      Replaced sub (t :: ts) (p :: texts)

/-- What rewriting puts in the place of each token; `blankBefore` says that nothing but blanks stands
in front. -/
def replacedTexts (sub : String → Option String) : (blankBefore : Bool) → List Token →
    List (List Char)
  | _, [] => []
  | blankBefore, t :: r =>
    (match (reference? t r).bind sub with
      | some s => place (blankBefore && r.all Token.isBlank) (trim s.toList)
      | none => t.text) :: replacedTexts sub (blankBefore && t.isBlank) r

variable {sub sub' : String → Option String} {b : Bool} {s : List Char} {t : Token}
  {ts : List Token} {n : String}

theorem rewriteTokens_eq_flatten (sub : String → Option String) (b : Bool) (ts : List Token) :
    rewriteTokens sub b ts = (replacedTexts sub b ts).flatten := by
  induction ts generalizing b with
  | nil => rfl
  | cons t ts ih => exact congrArg (_ ++ ·) (ih _)

theorem toList_rewrite (sub : String → Option String) (expr : String) :
    (rewrite sub expr).toList = (replacedTexts sub true (scan expr.toList)).flatten := by
  rw [rewrite, String.toList_ofList, rewriteTokens_eq_flatten]

theorem place_eq_or (whole : Bool) (s : List Char) :
    place whole s = s ∨ place whole s = '(' :: (s ++ [')']) := by
  unfold place
  split
  · exact .inr rfl
  · exact .inl rfl

theorem isKeyword_iff {name : List Char} :
    isKeyword name = true ↔ String.ofList (foldCase name) ∈ keywords := by
  rw [isKeyword, List.contains_iff_mem]

theorem Splits.reference?_eq_some (h : Splits s ts) : reference? t ts = some n ↔ RefersTo t ts n := by
  have hcall := h.opensCall_iff
  rw [← h.flatMap_text] at hcall
  unfold reference?
  constructor
  · intro hn
    split at hn
    · next name hname =>
      split at hn
      · cases hn
      · next hfree =>
        obtain rfl := Option.some.inj hn
        rw [Bool.or_eq_true, not_or, isKeyword_iff, hcall] at hfree
        exact ⟨by rw [hname, String.toList_ofList], by rw [String.toList_ofList]; exact hfree.1,
          hfree.2⟩
    · cases hn
  · intro hn
    have hfree : ¬(isKeyword n.toList || opensCall ts) = true := by
      rw [Bool.or_eq_true, not_or, isKeyword_iff, hcall]
      exact ⟨hn.notKeyword, hn.notCall⟩
    rw [hn.name]
    dsimp only
    rw [if_neg hfree, String.ofList_toList]

theorem Splits.replaced (h : Splits s ts) (sub : String → Option String) (b : Bool) :
    Replaced sub ts (replacedTexts sub b ts) := by
  induction h generalizing b with
  | nil => exact .nil
  | @cons t s ts _ hts ih =>
    rw [replacedTexts]
    cases hr : (reference? t ts).bind sub with
    | none =>
      refine .keep (fun n hn => ?_) (ih _)
      rwa [hts.reference?_eq_some.2 hn] at hr
    | some r =>
      obtain ⟨n, hn, hsub⟩ := Option.bind_eq_some_iff.1 hr
      exact .replace (hts.reference?_eq_some.1 hn) hsub (place_eq_or _ _) (ih _)

theorem mem_references_iff :
    n ∈ references ts ↔
      ∃ before t after, ts = before ++ t :: after ∧ reference? t after = some n := by
  induction ts with
  | nil => simp [references]
  | cons t ts ih =>
    rw [references, List.mem_append, Option.mem_toList, ih]
    constructor
    · rintro (hn | ⟨before, u, after, rfl, hn⟩)
      · exact ⟨[], t, ts, rfl, hn⟩
      · exact ⟨t :: before, u, after, rfl, hn⟩
    · rintro ⟨before, u, after, hts, hn⟩
      cases before with
      | nil =>
        obtain ⟨rfl, rfl⟩ := List.cons.inj hts
        exact .inl hn
      | cons v before => exact .inr ⟨before, u, after, (List.cons.inj hts).2, hn⟩

theorem Splits.mem_references (h : Splits s ts) :
    n ∈ references ts ↔ ∃ before t after, ts = before ++ t :: after ∧ RefersTo t after n := by
  rw [mem_references_iff]
  refine exists_congr fun before => exists_congr fun t => exists_congr fun after =>
    and_congr_right fun hts => ?_
  rw [hts] at h
  exact h.after.reference?_eq_some

theorem rewriteTokens_congr (h : ∀ n ∈ references ts, sub n = sub' n) (b : Bool) :
    rewriteTokens sub b ts = rewriteTokens sub' b ts := by
  induction ts generalizing b with
  | nil => rfl
  | cons t ts ih =>
    have hhead : (reference? t ts).bind sub = (reference? t ts).bind sub' := by
      cases hr : reference? t ts with
      | none => rfl
      | some n => exact h n (by simp [references, hr])
    rw [rewriteTokens, rewriteTokens, hhead, ih fun n hn => h n (by simp [references, hn])]

theorem rewriteTokens_of_disjoint (h : ∀ n ∈ references ts, sub n = none) (b : Bool) :
    rewriteTokens sub b ts = ts.flatMap Token.text := by
  induction ts generalizing b with
  | nil => rfl
  | cons t ts ih =>
    have hhead : (reference? t ts).bind sub = none := by
      cases hr : reference? t ts with
      | none => rfl
      | some n => exact h n (by simp [references, hr])
    rw [rewriteTokens, hhead, List.flatMap_cons, ih fun n hn => h n (by simp [references, hn])]

theorem mem_columnRefs {expr : String} : n ∈ columnRefs expr ↔ n ∈ references (scan expr.toList) :=
  NameSet.mem_ofList

/-- An expression splits into tokens in one way, and loses nothing by it. Rewriting puts texts in the
place of some of the tokens and keeps the other ones, and what an expression refers to are the names
that something can be put in the place of. -/
theorem rewrite_by_tokens (expr : String) :
    ∃ ts, (∀ ts', Splits expr.toList ts' ↔ ts' = ts) ∧ ts.flatMap Token.text = expr.toList ∧
      (∀ sub, ∃ texts, Replaced sub ts texts ∧ (rewrite sub expr).toList = texts.flatten) ∧
      (∀ n, n ∈ columnRefs expr ↔
        ∃ before t after, ts = before ++ t :: after ∧ RefersTo t after n) ∧
      (∀ sub sub', (∀ n ∈ columnRefs expr, sub n = sub' n) → rewrite sub expr = rewrite sub' expr) ∧
      ∀ sub, (∀ n ∈ columnRefs expr, sub n = none) → rewrite sub expr = expr := by
  have hsplit := splits_scan expr.toList
  refine ⟨scan expr.toList, fun ts' => splits_iff, hsplit.flatMap_text, fun sub => ?_, fun n => ?_,
    fun sub sub' hsub => ?_, fun sub hsub => ?_⟩
  · exact ⟨_, hsplit.replaced sub true, toList_rewrite sub expr⟩
  · rw [mem_columnRefs, hsplit.mem_references]
  · rw [rewrite, rewrite, rewriteTokens_congr fun n hn => hsub n (mem_columnRefs.2 hn)]
  · rw [rewrite, rewriteTokens_of_disjoint fun n hn => hsub n (mem_columnRefs.2 hn),
      hsplit.flatMap_text, String.ofList_toList]

end MetricSql.Expr
