import MetricSql.Proofs.Expression.Boundaries
import MetricSql.Proofs.Expression.Nesting
import MetricSql.Proofs.Expression.Recasing

namespace MetricSql.Expr

open Text Arithmetic

def inBackticks (name : String) : String := String.ofList (Token.quoted name.toList true).text

def asItself (p : String → Bool) (n : String) : Option String := if p n then some n else none

inductive Bared (p : String → Bool) : List Token → List Token → Prop
  | nil : Bared p [] []
  | keep {t ts us} :
      (∀ n closed, t = .quoted n closed → RefersTo t ts (.ofList n) → p (.ofList n) = false) →
      Bared p ts us → Bared p (t :: ts) (t :: us)
  | bare {n closed ts us} : RefersTo (.quoted n closed) ts (.ofList n) → p (.ofList n) = true →
      Bared p ts us → Bared p (.quoted n closed :: ts) (.word n :: us)

/-- A name in backticks that can do without them where it stands: it has the form of a bare name,
neither a bare name nor a number ends right before it, and what comes right behind it, be it in
backticks itself, does not go on with it. -/
structure StandsApart (before : List Token) (n : List Char) (after : List Token) : Prop where
  form : isName n = true
  before : ∀ t ∈ before.getLast?, ∀ w, t ≠ .word w ∧ t ≠ .number w
  after : ∀ c ∈ (after.flatMap Token.text).head?, isWordChar c = false ∧ c ≠ backtick

def AllApart (p : String → Bool) (ts : List Token) : Prop :=
  ∀ before n closed after, ts = before ++ .quoted n closed :: after →
    RefersTo (.quoted n closed) after (.ofList n) → p (.ofList n) = true →
    StandsApart before n after

variable {p : String → Bool} {s w : List Char} {t : Token} {ts us : List Token} {n : String}

theorem isBlank_of_isName (hw : isName w = true) : ∀ c ∈ w, isBlank c = false := fun c hc =>
  isBlank_of_isWordChar ((isName_eq_true hw).2 c hc)

theorem isCompound_name (hw : isName w = true) : isCompound w = false := by
  have hall := (isName_eq_true hw).2
  have hoperator : hasOperator 0 w = false := by
    have happend := hasOperator_append (fun c hc => not_mem_marks_of_isWordChar (hall c hc)) 0 []
    rw [List.append_nil] at happend
    rw [happend, hasOperator]
  have hspace {v : List Char} : occurs (' ' :: v) (foldCase w) = false := by
    rw [← Bool.not_eq_true, occurs_iff]
    intro h
    obtain ⟨c, hc, hlower⟩ := List.mem_map.1 (h.subset List.mem_cons_self)
    obtain rfl : c = ' ' := eq_of_toLower_eq rfl hlower
    exact absurd (hall _ hc) (by decide)
  have hand : occurs " and ".toList (foldCase w) = false := hspace
  have hor : occurs " or ".toList (foldCase w) = false := hspace
  rw [isCompound, hoperator, hand, hor, Bool.or_self, Bool.or_self, Bool.and_false]

theorem place_name (hw : isName w = true) (whole : Bool) : place whole (trim w) = w := by
  rw [trim_of_forall (isBlank_of_isName hw), place, isCompound_name hw, Bool.and_false]
  rfl

namespace Bared

theorem exists_bared (p : String → Bool) (ts : List Token) : ∃ us, Bared p ts us := by
  induction ts with
  | nil => exact ⟨[], .nil⟩
  | cons t ts ih =>
    obtain ⟨us, hus⟩ := ih
    by_cases h : ∃ n closed, t = .quoted n closed ∧ RefersTo t ts (.ofList n) ∧
        p (.ofList n) = true
    · obtain ⟨n, closed, rfl, hn, hp⟩ := h
      exact ⟨_, .bare hn hp hus⟩
    · refine ⟨_, .keep (fun n closed ht hn => ?_) hus⟩
      rw [← Bool.not_eq_true]
      exact fun hp => h ⟨n, closed, ht, hn, hp⟩

theorem opensCall_eq (h : Bared p ts us) : opensCall us = opensCall ts := by
  induction h with
  | nil => rfl
  | @keep t ts us _ _ ih =>
    cases t with
    | other c => rw [opensCall, opensCall, ih]
    | literal | quoted | number | word => rfl
  | bare => rfl

theorem references_eq (h : Bared p ts us) : references us = references ts := by
  induction h with
  | nil => rfl
  | keep _ hrest ih => rw [references, references, ih, reference?, reference?, hrest.opensCall_eq]
  | bare _ _ hrest ih =>
    rw [references, references, ih, reference?, reference?, hrest.opensCall_eq]
    rfl

end Bared

theorem AllApart.tail (h : AllApart p (t :: ts)) : AllApart p ts := by
  intro before n closed after hts hn hp
  obtain ⟨hform, hbefore, hafter⟩ := h (t :: before) n closed after (by rw [hts, List.cons_append]) hn hp
  refine ⟨hform, fun u hu => hbefore u ?_, hafter⟩
  cases before with
  | nil => cases hu
  | cons v before => rwa [List.getLast?_cons_cons]

theorem AllApart.isName {n : List Char} {closed : Bool} (h : AllApart p (.quoted n closed :: ts))
    (hn : RefersTo (.quoted n closed) ts (.ofList n)) (hp : p (.ofList n) = true) :
    isName n = true :=
  (h [] n closed ts rfl hn hp).form

theorem Token.Stands.isName (h : (Token.word w).Stands s) : isName w = true := by
  cases h with
  | word hstart hall _ =>
    simpa [Arithmetic.isName, hstart, isWordChar_of_isWordStart hstart] using hall

namespace Bared

theorem rewriteTokens (h : Bared p ts us) (hs : Splits s ts) (hp : AllApart p ts) (b : Bool) :
    rewriteTokens (asItself p) b ts = us.flatMap Token.text := by
  induction h generalizing s b with
  | nil => rfl
  | @keep t ts us hkeep _ ih =>
    cases hs with
    | cons ht hts =>
      rw [Expr.rewriteTokens, ih hts hp.tail, List.flatMap_cons]
      congr 1
      split
      · next k hk =>
        obtain ⟨m, hm, hself⟩ := Option.bind_eq_some_iff.1 hk
        obtain ⟨hpm, rfl⟩ : p m = true ∧ m = k := by simpa [asItself] using hself
        have hrefers := hts.reference?_eq_some.1 hm
        cases t with
        | word w =>
          obtain rfl := Option.some.inj hrefers.name
          exact place_name ht.isName _
        | quoted n closed =>
          obtain rfl := Option.some.inj hrefers.name
          have hkept := hkeep m.toList closed rfl
          rw [String.ofList_toList, hpm] at hkept
          cases hkept hrefers
        | literal | number | other => cases hrefers.name
      · rfl
  | @bare n closed ts us hn hpn _ ih =>
    cases hs with
    | cons _ hts =>
      have hself : (reference? (.quoted n closed) ts).bind (asItself p) = some (.ofList n) := by
        rw [hts.reference?_eq_some.2 hn, Option.bind_some, asItself, if_pos hpn]
      rw [Expr.rewriteTokens, hself, ih hts hp.tail, List.flatMap_cons]
      dsimp only
      rw [String.toList_ofList, place_name (hp.isName hn hpn)]
      rfl

theorem head (h : Bared p ts us) (hs : Splits s ts) (hp : AllApart p (t :: ts)) :
    (us.flatMap Token.text).head? = (ts.flatMap Token.text).head? ∨
      (∃ c, (us.flatMap Token.text).head? = some c ∧ isWordStart c = true) ∧
        (ts.flatMap Token.text).head? = some backtick ∧ ∀ w, t ≠ .word w ∧ t ≠ .number w := by
  cases h with
  | nil => exact .inl rfl
  | keep =>
    cases hs with
    | cons ht _ =>
      rw [List.flatMap_cons, List.flatMap_cons, List.head?_append_of_ne_nil _ ht.text_ne_nil,
        List.head?_append_of_ne_nil _ ht.text_ne_nil]
      exact .inl rfl
  | @bare n closed ts us hn hpn =>
    obtain ⟨hform, hbefore, -⟩ := hp [t] n closed ts rfl hn hpn
    obtain ⟨⟨c, r, rfl, hstart⟩, -⟩ := isName_eq_true hform
    exact .inr ⟨⟨c, rfl, hstart⟩, rfl, hbefore t rfl⟩

theorem eq_nil (h : Bared p ts us) (hs : Splits s ts) (hnil : ts.flatMap Token.text = []) :
    us = [] := by
  cases hs with
  | nil =>
    cases h
    rfl
  | cons ht _ =>
    rw [List.flatMap_cons, List.append_eq_nil_iff] at hnil
    exact absurd hnil.1 ht.text_ne_nil

theorem stands (h : Bared p ts us) (hs : Splits s ts) (hp : AllApart p (t :: ts))
    (ht : t.Stands (ts.flatMap Token.text)) : t.Stands (us.flatMap Token.text) := by
  have hnext (hrun : ∃ w, t = .word w ∨ t = .number w)
      (hnot : ∀ a ∈ (ts.flatMap Token.text).head?, isWordChar a = false) :
      ∀ a ∈ (us.flatMap Token.text).head?, isWordChar a = false := by
    obtain hsame | ⟨-, -, hneither⟩ := h.head hs hp
    · rwa [hsame]
    · obtain ⟨w, hw⟩ := hrun
      exact (hw.elim (hneither w).1 (hneither w).2).elim
  generalize hrest : ts.flatMap Token.text = rest at ht hnext
  cases ht with
  | @literal q _ _ hq hbody hquote =>
    refine .literal hq hbody ?_
    obtain hsame | ⟨⟨c, hc, hstart⟩, -, -⟩ := h.head hs hp
    · rwa [hsame, hrest]
    · rw [hc, ne_eq, Option.some_inj]
      rintro rfl
      obtain rfl | rfl := hq <;> cases hstart
  | openLiteral hq hbody =>
    rw [h.eq_nil hs hrest]
    exact .openLiteral hq hbody
  | quoted hname => exact .quoted hname
  | openQuoted hname =>
    rw [h.eq_nil hs hrest]
    exact .openQuoted hname
  | number hdigit hall hnot => exact .number hdigit hall (hnext ⟨_, .inr rfl⟩ hnot)
  | word hstart hall hnot => exact .word hstart hall (hnext ⟨_, .inl rfl⟩ hnot)
  | other halone => exact .other halone

theorem splits (h : Bared p ts us) (hs : Splits s ts) (hp : AllApart p ts) :
    Splits (us.flatMap Token.text) us := by
  induction h generalizing s with
  | nil => exact .nil
  | keep _ hrest ih =>
    cases hs with
    | cons ht hts =>
      rw [← hts.flatMap_text] at ht
      exact .cons (hrest.stands hts hp ht) (ih hts hp.tail)
  | @bare n closed ts us hn hpn hrest ih =>
    cases hs with
    | cons _ hts =>
      obtain ⟨hform, -, hafter⟩ := hp [] n closed ts rfl hn hpn
      obtain ⟨⟨c, r, rfl, hstart⟩, hall⟩ := isName_eq_true hform
      refine .cons (.word hstart (fun a ha => hall a (List.mem_cons_of_mem _ ha)) ?_)
        (ih hts hp.tail)
      intro a ha
      obtain hsame | ⟨-, hback, -⟩ := hrest.head hts hp
      · exact (hafter a (hsame ▸ ha)).1
      · exact absurd rfl (hafter backtick hback).2

end Bared

/-- Where all of them can do without backticks, names that stand for themselves leave an expression
with the same references. -/
theorem columnRefs_rewrite_asItself {expr : String}
    (h : ∀ ts, Splits expr.toList ts → AllApart p ts) :
    columnRefs (rewrite (asItself p) expr) = columnRefs expr := by
  have hs := splits_scan expr.toList
  obtain ⟨us, hus⟩ := Bared.exists_bared p (scan expr.toList)
  have hp := h _ hs
  rw [columnRefs, columnRefs, rewrite, hus.rewriteTokens hs hp, String.toList_ofList,
    (hus.splits hs hp).scan_eq, hus.references_eq]

theorem splits_inBackticks (hn : backtick ∉ n.toList) :
    Splits (inBackticks n).toList [.quoted n.toList true] := by
  rw [inBackticks, String.toList_ofList, ← List.append_nil (Token.text _)]
  exact .cons (.quoted hn) .nil

theorem refersTo_inBackticks (hkey : isKeyword n.toList = false) :
    RefersTo (.quoted n.toList true) [] n := by
  rw [← Bool.not_eq_true, isKeyword_iff] at hkey
  exact ⟨rfl, hkey, not_opensCall_nil⟩

theorem mem_columnRefs_inBackticks (hn : backtick ∉ n.toList) (k : String) :
    k ∈ columnRefs (inBackticks n) ↔ k = n ∧ isKeyword n.toList = false := by
  rw [mem_columnRefs, (splits_inBackticks hn).scan_eq, references, references, List.append_nil,
    Option.mem_toList, Splits.nil.reference?_eq_some]
  constructor
  · rintro ⟨hname, hkey, -⟩
    obtain rfl := String.toList_injective (Option.some.inj hname)
    rw [← isKeyword_iff, Bool.not_eq_true] at hkey
    exact ⟨rfl, hkey⟩
  · rintro ⟨rfl, hkey⟩
    exact refersTo_inBackticks hkey

theorem rewrite_inBackticks (hn : backtick ∉ n.toList) (hkey : isKeyword n.toList = false)
    (hp : p n = true) : rewrite (asItself p) (inBackticks n) = String.ofList (trim n.toList) := by
  have hsub : (reference? (.quoted n.toList true) []).bind (asItself p) = some n := by
    rw [Splits.nil.reference?_eq_some.2 (refersTo_inBackticks hkey), Option.bind_some, asItself,
      if_pos hp]
  rw [rewrite, (splits_inBackticks hn).scan_eq, rewriteTokens, rewriteTokens, hsub,
    List.append_nil]
  rfl

theorem mem_of_mem_trim {c : Char} (hc : c ∈ trim s) : c ∈ s := by
  rw [trim, trimEnd, List.mem_reverse] at hc
  exact (List.dropWhile_suffix _).subset (List.mem_reverse.1 ((List.dropWhile_suffix _).subset hc))

theorem isName_of_mem_columnRefs (hn : backtick ∉ n.toList)
    (h : n ∈ columnRefs (.ofList (trim n.toList))) : isName n.toList = true := by
  rw [mem_columnRefs, String.toList_ofList] at h
  have hs := splits_scan (trim n.toList)
  obtain ⟨before, t, after, hscan, hrefers⟩ := hs.mem_references.1 h
  have htext := hs.flatMap_text
  rw [hscan] at hs htext
  cases t with
  | word w =>
    obtain rfl := Option.some.inj hrefers.name
    exact hs.stands.isName
  | quoted m closed =>
    have hmem : backtick ∈ trim n.toList := by
      rw [← htext]
      simp [Token.text]
    exact absurd (mem_of_mem_trim hmem) hn
  | literal | number | other => cases hrefers.name

theorem columnRefs_rewrite_inBackticks_iff (hn : backtick ∉ n.toList)
    (hkey : isKeyword n.toList = false) (hp : p n = true) :
    columnRefs (rewrite (asItself p) (inBackticks n)) = columnRefs (inBackticks n) ↔
      isName n.toList = true := by
  constructor
  · intro h
    rw [rewrite_inBackticks hn hkey hp] at h
    refine isName_of_mem_columnRefs hn ?_
    rw [h, mem_columnRefs_inBackticks hn]
    exact ⟨rfl, hkey⟩
  · intro hname
    refine columnRefs_rewrite_asItself fun ts hts => ?_
    rw [splits_iff.1 hts, (splits_inBackticks hn).scan_eq]
    intro before m closed after hts _ _
    cases before with
    | nil =>
      obtain ⟨htoken, rfl⟩ := List.cons.inj hts
      obtain ⟨rfl, -⟩ := Token.quoted.inj htoken
      exact ⟨hname, by simp, by simp⟩
    | cons u before => simp at hts

end MetricSql.Expr
