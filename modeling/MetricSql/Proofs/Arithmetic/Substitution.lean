import MetricSql.Proofs.Arithmetic.Scanning

namespace MetricSql.Expr.Arithmetic

open Text

variable {sub : String → Option String} {b : Bool} {s : List Char} {ls : List Lexeme}

/-- The lexemes of a rewritten expression; `alone` says that nothing stands before the lexemes. -/
def substitute (sub : String → Option String) : (alone : Bool) → List Lexeme → List Lexeme
  | _, [] => []
  | alone, l :: ls =>
    (match replacement sub l ls with
      | some s => (lex (place (alone && ls.isEmpty) (trim s.toList))).getD []
      | none => [l]) ++
    substitute sub false ls

theorem replacement_eq_some {l : Lexeme} {r : String} (h : replacement sub l ls = some r) :
    ∃ w, l = .word w ∧ isKeyword w = false ∧ ls.head? ≠ some .opening ∧
      sub (.ofList w) = some r := by
  unfold replacement at h
  split at h
  · next w =>
    split at h
    · cases h
    · next hw =>
      obtain ⟨hkey, hcall⟩ := not_or.1 hw
      exact ⟨w, rfl, Bool.eq_false_iff.2 hkey, hcall, h⟩
  · cases h

theorem substitute_of_none {l : Lexeme} (h : replacement sub l ls = none) :
    substitute sub b (l :: ls) = l :: substitute sub false ls := by
  rw [substitute, h]
  rfl

theorem lexes_place {r : String} {u : Tree} (h : parse r = some u) (alone : Bool) :
    ∃ us, Lexes (place alone (trim r.toList)) us ∧ Derives 1 us u ∧
      (alone = false → ∀ k, Derives k us u) := by
  obtain ⟨us, hlex, hu⟩ := parse_eq_some.1 h
  have htrim := hlex.trim
  unfold place
  split
  · have hclosing : Lexes [')'] [.closing] :=
      .lexeme (l := .closing) trivial (by simp) .nil
    have hinner : Lexes (trim r.toList ++ [')']) (us ++ [.closing]) := by
      refine htrim.append hclosing fun l hl c hc => hu.goesOn_last ?_ l hl
      cases hc
      decide
    exact ⟨_, .lexeme (l := .opening) trivial (fun _ _ => rfl) hinner, .paren hu,
      fun _ _ => .paren hu⟩
  · next hc =>
    refine ⟨us, htrim, hu, fun halone k => tight_of_isCompound htrim hu ?_ k⟩
    subst halone
    simpa using hc

section

variable (hsub : ∀ n r, sub n = some r → ∃ u, parse r = some u)
include hsub

theorem goesOn_rewriteTokens (h : Lexes s ls) {l : Lexeme}
    (hl : ∀ c ∈ s.head?, l.goesOn c = false) :
    ∀ c ∈ (rewriteTokens sub b (scan s)).head?, l.goesOn c = false := by
  cases h with
  | nil => simp [scan, rewriteTokens]
  | blank hc _ =>
    rw [rewriteTokens_blank hc]
    exact hl
  | @lexeme l' s ls hl' hgo h =>
    rw [rewriteTokens_lexeme hl' hgo h]
    obtain ⟨a, w, haw⟩ := List.exists_cons_of_ne_nil (Lexeme.text_ne_nil hl')
    have ha : l.goesOn a = false := hl a (by simp [haw])
    cases hr : replacement sub l' ls with
    | none =>
      simpa [placed, hr, haw] using ha
    | some r =>
      obtain ⟨v, rfl, -, -, hv⟩ := replacement_eq_some hr
      obtain ⟨u, hu⟩ := hsub _ _ hv
      obtain ⟨us, hus, hder, -⟩ := lexes_place hu (b && ls.isEmpty)
      obtain ⟨c, p, hp, heq, hgt⟩ := head_of_derives hus hder
      have hc : l.goesOn c = false := by
        rw [← Bool.not_eq_true]
        intro hc
        obtain hword | rfl | rfl := Lexeme.goesOn_eq_true hc
        · have hav : a ∈ v := by
            rw [show v = a :: w from haw]
            exact List.mem_cons_self
          rw [hword, Lexeme.isWordChar_word hl' a hav] at ha
          cases ha
        · exact heq rfl
        · exact hgt rfl
      simpa [placed, hr, hp] using hc

theorem lexes_rewriteTokens (h : Lexes s ls) (b : Bool) :
    Lexes (rewriteTokens sub b (scan s)) (substitute sub b ls) := by
  induction h generalizing b with
  | nil =>
    rw [scan]
    exact .nil
  | blank hc _ ih =>
    rw [rewriteTokens_blank hc]
    exact .blank hc (ih b)
  | @lexeme l s ls hl hgo h ih =>
    have hnext := goesOn_rewriteTokens (b := false) hsub h hgo
    rw [rewriteTokens_lexeme hl hgo h, substitute, placed]
    cases hr : replacement sub l ls with
    | none => exact .lexeme hl hnext (ih false)
    | some r =>
      obtain ⟨w, rfl, -, -, hw⟩ := replacement_eq_some hr
      obtain ⟨u, hu⟩ := hsub _ _ hw
      obtain ⟨us, hus, hder, -⟩ := lexes_place hu (b && ls.isEmpty)
      simp only [lex_eq_some.2 hus, Option.getD_some]
      exact hus.append (ih false) fun l hl c hc => hder.goesOn_last (hnext c hc) l hl

theorem Derives.substitute_append {k : Nat} {ts : List Lexeme} {t : Tree} (h : Derives k ts t) :
    ∀ {rest}, rest.head? ≠ some .opening → ∃ us,
      substitute sub false (ts ++ rest) = us ++ substitute sub false rest ∧
        Derives k us (t.subst fun n => (sub n).bind parse) := by
  induction h with
  | @number k s =>
    intro rest _
    exact ⟨[.number s], substitute_of_none rfl, .number⟩
  | @name k s hs =>
    intro rest hrest
    cases hr : sub (.ofList s) with
    | none =>
      refine ⟨[.word s], substitute_of_none ?_, ?_⟩
      · simp [replacement, hr]
      · simpa [Tree.subst, hr] using .name hs
    | some r =>
      obtain ⟨u, hu⟩ := hsub _ _ hr
      obtain ⟨us, hus, -, htight⟩ := lexes_place hu false
      refine ⟨us, ?_, ?_⟩
      · simp [substitute, replacement, hs, hrest, hr, lex_eq_some.2 hus]
      · simpa [Tree.subst, hr, hu] using htight rfl k
  | @call k f ts t _ ih =>
    intro rest _
    obtain ⟨us, hus, ht⟩ := @ih (.closing :: rest) (by simp)
    refine ⟨.word f :: .opening :: (us ++ [.closing]), ?_, .call ht⟩
    have hf : replacement sub (.word f) (.opening :: (ts ++ .closing :: rest)) = none := by
      simp [replacement]
    simp only [List.cons_append, List.append_assoc, List.nil_append]
    rw [substitute_of_none hf, substitute_of_none rfl, hus, substitute_of_none rfl]
  | @paren k ts t _ ih =>
    intro rest _
    obtain ⟨us, hus, ht⟩ := @ih (.closing :: rest) (by simp)
    refine ⟨.opening :: (us ++ [.closing]), ?_, .paren ht⟩
    simp only [List.cons_append, List.append_assoc, List.nil_append]
    rw [substitute_of_none rfl, hus, substitute_of_none rfl]
  | @neg k ts t hk _ ih =>
    intro rest hrest
    obtain ⟨us, hus, ht⟩ := ih hrest
    refine ⟨.op .sub :: us, ?_, .neg hk ht⟩
    rw [List.cons_append, substitute_of_none rfl, hus]
    rfl
  | @binary k o ts us t u hk _ _ iht ihu =>
    intro rest hrest
    obtain ⟨vs, hvs, ht⟩ := @iht (.op o :: (us ++ rest)) (by simp)
    obtain ⟨ws, hws, hu⟩ := ihu hrest
    refine ⟨vs ++ .op o :: ws, ?_, .binary hk ht hu⟩
    rw [List.append_assoc, List.cons_append, hvs, substitute_of_none rfl, hws, List.append_assoc]
    rfl

theorem Derives.substitute {t : Tree} (h : Derives 1 ls t) :
    Derives 1 (Arithmetic.substitute sub true ls) (t.subst fun n => (sub n).bind parse) := by
  have hinner : Derives 1 (Arithmetic.substitute sub false ls)
      (t.subst fun n => (sub n).bind parse) := by
    obtain ⟨us, hus, ht⟩ := h.substitute_append hsub
      (show ([] : List Lexeme).head? ≠ some .opening by simp)
    rw [List.append_nil] at hus
    rw [hus]
    simpa [Arithmetic.substitute] using ht
  match ls with
  | [] => exact hinner
  | _ :: _ :: _ => exact hinner
  | [l] =>
    cases hr : replacement sub l [] with
    | none => rwa [substitute_of_none hr] at hinner ⊢
    | some r =>
      obtain ⟨w, rfl, hkey, -, hw⟩ := replacement_eq_some hr
      obtain ⟨u, hu⟩ := hsub _ _ hw
      obtain ⟨us, hus, hder, -⟩ := lexes_place hu true
      have ht : t = .name (.ofList w) :=
        Option.some.inj ((parseLexemes_eq_some.2 h).symm.trans
          (parseLexemes_eq_some.2 (.name hkey)))
      subst ht
      simpa [Arithmetic.substitute, hr, lex_eq_some.2 hus, Tree.subst, hw, hu] using hder

end

/-- Rewriting keeps what an expression means: its tree has the trees of the texts in the place of
the names, whatever the precedence of the operators there. -/
theorem parse_rewrite {expr : String} {t : Tree} (h : parse expr = some t)
    (hsub : ∀ n r, sub n = some r → ∃ u, parse r = some u) :
    parse (rewrite sub expr) = some (t.subst fun n => (sub n).bind parse) := by
  obtain ⟨ls, hlex, ht⟩ := parse_eq_some.1 h
  refine parse_eq_some.2 ⟨substitute sub true ls, ?_, ht.substitute hsub⟩
  rw [rewrite, String.toList_ofList]
  exact lexes_rewriteTokens hsub hlex true

theorem parse_rewrite_product :
    parse (rewrite (fun n => if n = "net" then some "gross - tax" else none) "2 * net") =
      some (.binary .mul (.number ['2']) (.binary .sub (.name "gross") (.name "tax"))) := by
  have h : parse "2 * net" = some (.binary .mul (.number ['2']) (.name "net")) := by cbv
  have hgross : parse "gross - tax" = some (.binary .sub (.name "gross") (.name "tax")) := by cbv
  rw [parse_rewrite h]
  · simp [Tree.subst, hgross]
  · intro n r hr
    split at hr
    · cases hr
      exact ⟨_, hgross⟩
    · cases hr

end MetricSql.Expr.Arithmetic
