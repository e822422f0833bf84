import MetricSql.Proofs.Expression.Replacement

namespace MetricSql.Expr

open Text Arithmetic

inductive Token.Recased : Token → Token → Prop
  | word {w v} : foldCase w = foldCase v → Recased (.word w) (.word v)
  | quoted {n m closed} : foldCase n = foldCase m → Recased (.quoted n closed) (.quoted m closed)

/-- Some of the references that have the property are written with other cases of letters, each of
them in its own way. -/
inductive Recased (P : String → Prop) : List Token → List Token → Prop
  | nil : Recased P [] []
  | keep {t ts us} : Recased P ts us → Recased P (t :: ts) (t :: us)
  | recase {t u ts us n} : RefersTo t ts n → P n → t.Recased u → Recased P ts us →
      Recased P (t :: ts) (u :: us)

variable {P : String → Prop} {a b : Char} {s u : List Char} {t v : Token} {ts us : List Token}
  {n : String}

section Characters

theorem toLower_eq_of_not_isAlpha (ha : a.isAlpha = false) : a.toLower = a := by
  apply Char.toLower_eq_of_not_isUpper
  intro hupper
  simp [Char.isAlpha, hupper] at ha

theorem isAlpha_congr (h : a.toLower = b.toLower) : a.isAlpha = b.isAlpha := by
  rw [← Char.isAlpha_toLower_eq_isAlpha a, h, Char.isAlpha_toLower_eq_isAlpha]

theorem eq_of_toLower_eq (hb : b.isAlpha = false) (h : a.toLower = b.toLower) : a = b := by
  have ha : a.isAlpha = false := (isAlpha_congr h).trans hb
  rwa [toLower_eq_of_not_isAlpha ha, toLower_eq_of_not_isAlpha hb] at h

theorem congr_of_toLower_eq {p : Char → Bool} (hp : ∀ c, c.isAlpha = true → p c = true)
    (h : a.toLower = b.toLower) : p a = p b := by
  by_cases hb : b.isAlpha = true
  · rw [hp a ((isAlpha_congr h).trans hb), hp b hb]
  · rw [eq_of_toLower_eq (Bool.eq_false_iff.2 hb) h]

theorem isWordChar_congr (h : a.toLower = b.toLower) : isWordChar a = isWordChar b :=
  congr_of_toLower_eq (fun c hc => by simp [isWordChar, Char.isAlphanum, hc]) h

theorem isWordStart_congr (h : a.toLower = b.toLower) : isWordStart a = isWordStart b :=
  congr_of_toLower_eq (fun c hc => by simp [isWordStart, hc]) h

theorem exists_mem_of_foldCase_eq (h : foldCase s = foldCase u) (hb : b ∈ u) :
    ∃ a ∈ s, a.toLower = b.toLower := by
  have hmem : b.toLower ∈ foldCase s := h ▸ List.mem_map_of_mem hb
  exact List.mem_map.1 hmem

theorem exists_head_of_foldCase_eq (h : foldCase s = foldCase u) (hb : b ∈ u.head?) :
    ∃ a ∈ s.head?, a.toLower = b.toLower := by
  have hhead : s.head?.map Char.toLower = some b.toLower := by
    rw [← List.head?_map, ← foldCase, h, foldCase, List.head?_map, Option.mem_def.1 hb]
    rfl
  exact Option.map_eq_some_iff.1 hhead

theorem eq_nil_of_foldCase_eq (h : foldCase [] = foldCase u) : u = [] :=
  List.map_eq_nil_iff.1 h.symm

end Characters

theorem Token.Stands.congr_rest (h : t.Stands s) (hs : foldCase s = foldCase u) : t.Stands u := by
  have hnext (hnot : ∀ a ∈ s.head?, isWordChar a = false) :
      ∀ b ∈ u.head?, isWordChar b = false := by
    intro b hb
    obtain ⟨a, ha, hab⟩ := exists_head_of_foldCase_eq hs hb
    rw [← isWordChar_congr hab, hnot a ha]
  cases h with
  | @literal q _ _ hq hbody hquote =>
    refine .literal hq hbody fun hhead => hquote ?_
    obtain ⟨a, ha, haq⟩ := exists_head_of_foldCase_eq hs hhead
    have hletter : q.isAlpha = false := by
      obtain rfl | rfl := hq <;> rfl
    rwa [← eq_of_toLower_eq hletter haq]
  | openLiteral hq hbody =>
    rw [eq_nil_of_foldCase_eq hs]
    exact .openLiteral hq hbody
  | quoted hname => exact .quoted hname
  | openQuoted hname =>
    rw [eq_nil_of_foldCase_eq hs]
    exact .openQuoted hname
  | number hdigit hall hnot => exact .number hdigit hall (hnext hnot)
  | word hstart hall hnot => exact .word hstart hall (hnext hnot)
  | other halone => exact .other halone

theorem isAlpha_of_isAsciiBlank (h : isAsciiBlank a = true) : a.isAlpha = false := by
  have halone := standsAlone_of_isAsciiBlank h
  simp only [standsAlone, isWordStart, Bool.not_eq_true', Bool.or_eq_false_iff] at halone
  exact halone.2.1

theorem OpensCall.congr (h : OpensCall s) (hs : foldCase s = foldCase u) : OpensCall u := by
  induction s generalizing u with
  | nil => exact absurd h not_opensCall_nil
  | cons a s ih =>
    obtain ⟨b, u, rfl, hab, hsu⟩ := List.map_eq_cons_iff.1 hs.symm
    obtain rfl | ⟨hblank, hrest⟩ := opensCall_cons_iff.1 h
    · exact opensCall_cons_iff.2 (.inl (eq_of_toLower_eq rfl hab))
    · obtain rfl := eq_of_toLower_eq (isAlpha_of_isAsciiBlank hblank) hab
      exact opensCall_cons_iff.2 (.inr ⟨hblank, ih hrest hsu.symm⟩)

theorem RefersTo.congr_rest (h : RefersTo t ts n)
    (hs : foldCase (us.flatMap Token.text) = foldCase (ts.flatMap Token.text)) :
    RefersTo t us n :=
  ⟨h.name, h.notKeyword, fun hcall => h.notCall (hcall.congr hs)⟩

namespace Token.Recased

theorem foldCase_text (h : t.Recased v) : foldCase t.text = foldCase v.text := by
  cases h with
  | word h => exact h
  | quoted h => simpa [Token.text, foldCase] using h

theorem isBlank_eq (h : t.Recased v) : t.isBlank = v.isBlank := by
  cases h <;> rfl

theorem stands (h : t.Recased v) (ht : t.Stands s) : v.Stands s := by
  have hname {n m : List Char} (hnm : foldCase n = foldCase m) (hn : backtick ∉ n) :
      backtick ∉ m := by
    intro hm
    obtain ⟨a, ha, hback⟩ := exists_mem_of_foldCase_eq hnm hm
    exact hn (eq_of_toLower_eq rfl hback ▸ ha)
  cases h with
  | @word w w' hw =>
    cases ht with
    | word hstart hall hnot =>
      obtain ⟨b, v, rfl, hb, hv⟩ := List.map_eq_cons_iff.1 hw.symm
      refine .word ?_ (fun c hc => ?_) hnot
      · rwa [isWordStart_congr hb]
      · obtain ⟨a, ha, hac⟩ := exists_mem_of_foldCase_eq hv.symm hc
        rw [← isWordChar_congr hac, hall a ha]
  | quoted hn =>
    cases ht with
    | quoted hback => exact .quoted (hname hn hback)
    | openQuoted hback => exact .openQuoted (hname hn hback)

theorem refersTo (h : t.Recased v) (ht : RefersTo t ts n) :
    ∃ k, RefersTo v ts k ∧ sameName n k = true := by
  obtain ⟨name, hname, hfold⟩ : ∃ name, v.name? = some name ∧ foldCase n.toList = foldCase name := by
    have hn := ht.name
    cases h with
    | word h | quoted h =>
      obtain rfl := Option.some.inj hn
      exact ⟨_, rfl, h⟩
  refine ⟨String.ofList name, ⟨?_, ?_, ht.notCall⟩, ?_⟩
  · rw [hname, String.toList_ofList]
  · rw [String.toList_ofList, ← hfold]
    exact ht.notKeyword
  · rw [sameName_iff, String.toList_ofList, hfold]

end Token.Recased

namespace Recased

theorem foldCase_text (h : Recased P ts us) :
    foldCase (ts.flatMap Token.text) = foldCase (us.flatMap Token.text) := by
  induction h with
  | nil => rfl
  | keep _ ih => rw [List.flatMap_cons, List.flatMap_cons, foldCase_append, foldCase_append, ih]
  | recase _ _ htu _ ih =>
    rw [List.flatMap_cons, List.flatMap_cons, foldCase_append, foldCase_append, ih,
      htu.foldCase_text]

theorem splits (h : Recased P ts us) (hs : Splits s ts) : Splits (us.flatMap Token.text) us := by
  induction h generalizing s with
  | nil => exact .nil
  | keep hrest ih =>
    cases hs with
    | cons ht hts =>
      have hfold := hrest.foldCase_text
      rw [hts.flatMap_text] at hfold
      exact .cons (ht.congr_rest hfold) (ih hts)
  | recase _ _ htu hrest ih =>
    cases hs with
    | cons ht hts =>
      have hfold := hrest.foldCase_text
      rw [hts.flatMap_text] at hfold
      exact .cons ((htu.stands ht).congr_rest hfold) (ih hts)

theorem all_isBlank (h : Recased P ts us) : ts.all Token.isBlank = us.all Token.isBlank := by
  induction h with
  | nil => rfl
  | keep _ ih => rw [List.all_cons, List.all_cons, ih]
  | recase _ _ htu _ ih => rw [List.all_cons, List.all_cons, ih, htu.isBlank_eq]

theorem reference?_keep (h : Recased P ts us) (hs : Splits s ts) (t : Token) :
    reference? t us = reference? t ts := by
  have hfold := h.foldCase_text
  apply Option.ext
  intro n
  rw [(h.splits hs).reference?_eq_some, hs.reference?_eq_some]
  exact ⟨fun hn => hn.congr_rest hfold, fun hn => hn.congr_rest hfold.symm⟩

theorem reference?_recase (h : Recased P ts us) (hs : Splits s ts) (hn : RefersTo t ts n)
    (htv : t.Recased v) :
    reference? t ts = some n ∧ ∃ k, reference? v us = some k ∧ sameName n k = true := by
  obtain ⟨k, hk, hsame⟩ := htv.refersTo hn
  exact ⟨hs.reference?_eq_some.2 hn, k,
    (h.splits hs).reference?_eq_some.2 (hk.congr_rest h.foldCase_text.symm), hsame⟩

theorem references (h : Recased P ts us) (hs : Splits s ts) :
    List.Forall₂ (fun n k => sameName n k = true) (references ts) (references us) := by
  induction h generalizing s with
  | nil => exact .nil
  | @keep t ts us hrest ih =>
    cases hs with
    | cons _ hts =>
      rw [Expr.references, Expr.references, hrest.reference?_keep hts]
      exact List.rel_append (List.forall₂_same.2 fun n _ => sameName_refl n) (ih hts)
  | recase hn _ htu hrest ih =>
    cases hs with
    | cons _ hts =>
      obtain ⟨hfrom, k, hto, hsame⟩ := hrest.reference?_recase hts hn htu
      rw [Expr.references, Expr.references, hfrom, hto]
      exact .cons hsame (ih hts)

/-- Texts that do not depend on the cases of names, and are there for the names with other cases,
lead to the same expression. -/
theorem rewriteTokens {sub : String → Option String}
    (hsub : ∀ n k, sameName n k = true → sub n = sub k) (h : Recased P ts us) (hs : Splits s ts)
    (hfound : ∀ n ∈ Expr.references ts, P n → (sub n).isSome) (b : Bool) :
    rewriteTokens sub b us = rewriteTokens sub b ts := by
  induction h generalizing s b with
  | nil => rfl
  | @keep t ts us hrest ih =>
    cases hs with
    | cons _ hts =>
      have htail : ∀ n ∈ Expr.references ts, P n → (sub n).isSome := fun n hn =>
        hfound n (List.mem_append_right _ hn)
      rw [Expr.rewriteTokens, Expr.rewriteTokens, hrest.reference?_keep hts, hrest.all_isBlank,
        ih hts htail]
  | @recase t u ts us n hn hP htu hrest ih =>
    cases hs with
    | cons _ hts =>
      have htail : ∀ n ∈ Expr.references ts, P n → (sub n).isSome := fun n hn =>
        hfound n (List.mem_append_right _ hn)
      obtain ⟨hfrom, k, hto, hsame⟩ := hrest.reference?_recase hts hn htu
      have hmem : n ∈ Expr.references (t :: ts) := by
        rw [Expr.references, hfrom]
        exact List.mem_append_left _ (List.mem_singleton.2 rfl)
      obtain ⟨r, hr⟩ := Option.isSome_iff_exists.1 (hfound n hmem hP)
      have hk : sub k = some r := (hsub n k hsame).symm.trans hr
      rw [Expr.rewriteTokens, Expr.rewriteTokens, hfrom, hto, Option.bind_some, Option.bind_some,
        hr, hk, hrest.all_isBlank, htu.isBlank_eq, ih hts htail]

end Recased

end MetricSql.Expr
