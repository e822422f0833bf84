import MetricSql.Proofs.Json.Reading
import MetricSql.Proofs.Query.FilterPieces
import MetricSql.Proofs.Query.Predicates

namespace MetricSql

open Text Json

namespace Sql.Literal

def text : Literal → List Char
  | null => "NULL".toList
  | bool b => (if b then "true" else "false").toList
  | number s => s
  | string s => '\'' :: (doubleQuotes s ++ ['\''])

def token : Literal → Token
  | string s => .quoted s
  | l => .bare l.text

def Valid : Literal → Prop
  | number s => isNumber s = true ∧ ∀ c ∈ s, isNumberChar c = true
  | _ => True

variable {l : Literal}

theorem Valid.literal?_token (h : l.Valid) : l.token.literal? = some l := by
  cases l with
  | null => rfl
  | bool b => cases b <;> rfl
  | string s => rfl
  | number s =>
    have hne {w : List Char} (hw : isNumber w = false) : s ≠ w := fun heq => by
      rw [← heq, h.1] at hw
      cases hw
    have htoken : (number s).token = .bare s := rfl
    rw [htoken, Token.literal?, if_neg (hne (by decide)), if_neg (hne (by decide)),
      if_neg (hne (by decide)), if_pos h.1]

theorem Valid.lexesTo (h : l.Valid) : LexesTo l.text [l.token] := by
  cases l with
  | null => exact lexesTo_name (by decide)
  | bool b => cases b <;> exact lexesTo_name (by decide)
  | string s =>
    have hread := lexesTo_literal (.ofList s)
    rwa [literal, String.toList_ofList, String.toList_ofList] at hread
  | number s =>
    refine lexesTo_bare (fun hs => ?_) fun c hc d hd =>
      goesOn_of_wordChars (.inl (h.2 c hc)) (.inl (h.2 d hd))
    subst hs
    exact absurd h.1 (by decide)

end Sql.Literal

namespace Json.Value

open Sql

mutual

/-- The scalars in a value, in order. An object counts as its text, and an empty array as a missing
scalar. -/
def scalars? : Value → List (Option Literal)
  | null => [some .null]
  | bool b => [some (.bool b)]
  | number n => [some (.number n.chars)]
  | string s => [some (.string s.toList)]
  | array items => if items.isEmpty then [none] else itemScalars? items
  | object fields => [some (.string (object fields).chars)]

def itemScalars? : List Value → List (Option Literal)
  | [] => []
  | v :: r => v.scalars? ++ itemScalars? r

end

def scalars (v : Value) : List Literal := v.scalars?.filterMap id

def optionChars (l : Option Literal) : List Char := (l.map Literal.text).getD []

theorem itemScalars?_eq (items : List Value) : itemScalars? items = items.flatMap scalars? := by
  induction items with
  | nil => rfl
  | cons v items ih => rw [itemScalars?, ih, List.flatMap_cons]

theorem literalTexts_eq (items : List Value) : literalTexts items = items.map literalText := by
  induction items with
  | nil => rfl
  | cons v items ih => rw [literalTexts, ih, List.map_cons]

theorem scalars?_array {items : List Value} (h : items ≠ []) :
    (array items).scalars? = items.flatMap scalars? := by
  rw [scalars?, if_neg (by simpa using h), itemScalars?_eq]

theorem scalars?_ne_nil : ∀ v : Value, v.scalars? ≠ []
  | .null | .bool _ | .number _ | .string _ | .object _ | .array [] => by simp [scalars?]
  | .array (v :: items) => by
    rw [scalars?_array (by simp), List.flatMap_cons]
    exact List.append_ne_nil_of_left_ne_nil (scalars?_ne_nil v) _

theorem toList_literalText : ∀ v : Value,
    (literalText v).toList = ", ".toList.intercalate (v.scalars?.map optionChars)
  | .null | .bool _ => by simp [literalText, scalars?, optionChars, Literal.text]
  | .number _ | .string _ => by simp [literalText, literal, scalars?, optionChars, Literal.text]
  | .object _ => by simp [literalText, literal, compact, scalars?, optionChars, Literal.text]
  | .array items => by
    by_cases hitems : items = []
    · subst hitems
      rfl
    have ih : (items.map literalText).map String.toList =
        (items.map fun v => v.scalars?.map optionChars).map ", ".toList.intercalate := by
      rw [List.map_map, List.map_map]
      exact List.map_congr_left fun v hv => toList_literalText v
    have hne : ∀ l ∈ items.map fun v => v.scalars?.map optionChars, l ≠ [] :=
      List.forall_mem_map.2 fun v _ => by simpa using v.scalars?_ne_nil
    rw [literalText, literalTexts_eq, String.toList_intercalate, ih, intercalate_flatten hne,
      scalars?_array hitems, List.map_flatMap]
    rfl
decreasing_by exact sizeOf_item_lt hv

theorem valid_of_mem_scalars? {l : Literal} : ∀ {v : Value}, some l ∈ v.scalars? → l.Valid
  | .null, h | .bool _, h | .string _, h | .object _, h => by
    rw [scalars?, List.mem_singleton] at h
    obtain rfl := Option.some.inj h
    trivial
  | .number n, h => by
    rw [scalars?, List.mem_singleton] at h
    obtain rfl := Option.some.inj h
    exact ⟨n.isNumber_chars, fun c => n.isNumberChar_of_mem⟩
  | .array items, h => by
    by_cases hitems : items = []
    · subst hitems
      cases List.mem_singleton.1 (show some l ∈ [none] from h)
    · rw [scalars?_array hitems] at h
      obtain ⟨v, hv, hl⟩ := List.mem_flatMap.1 h
      exact valid_of_mem_scalars? hl
decreasing_by exact sizeOf_item_lt hv

def optionTokens (l : Option Literal) : List Token := (l.map Literal.token).toList

def tokens (v : Value) : List Token := [Token.mark ','].intercalate (v.scalars?.map optionTokens)

theorem tokens_shape (v : Value) :
    (v.scalars? = [none] ∧ v.tokens = []) ∨
    (∃ x : Literal, x.Valid ∧ v.scalars? = [some x] ∧ v.tokens = [x.token]) ∨
    (∃ r, v.tokens = .mark ',' :: r) ∨
    ∃ (x : Literal) (r : _), x.Valid ∧ v.tokens = x.token :: .mark ',' :: r := by
  have hvalid {x : Literal} (hx : some x ∈ v.scalars?) : x.Valid := valid_of_mem_scalars? hx
  rw [tokens]
  match hscalars : v.scalars? with
  | [] => exact absurd hscalars v.scalars?_ne_nil
  | [none] => exact .inl ⟨rfl, rfl⟩
  | [some x] => exact .inr (.inl ⟨x, hvalid (by simp [hscalars]), rfl, rfl⟩)
  | none :: o :: l =>
    rw [List.map_cons, List.map_cons, List.intercalate_cons_cons]
    exact .inr (.inr (.inl ⟨_, rfl⟩))
  | some x :: o :: l =>
    rw [List.map_cons, List.map_cons, List.intercalate_cons_cons]
    exact .inr (.inr (.inr ⟨x, _, hvalid (by simp [hscalars]), rfl⟩))

theorem lexesTo_literalText (v : Value) : LexesTo (literalText v).toList v.tokens := by
  rw [toList_literalText, tokens]
  refine lexesTo_intercalate (stops_cons (by decide)) (by decide) (fun h => h.blank.mark rfl) ?_
  rw [List.forall₂_map_left_iff, List.forall₂_map_right_iff, List.forall₂_same]
  intro l hl
  cases l with
  | none => exact LexesTo.nil
  | some l => exact (valid_of_mem_scalars? hl).lexesTo

end Json.Value

namespace Sql

open Json.Value

variable {l : List (Option Literal)}

theorem readMembers?_mark (c : Char) (r : List Token) : readMembers? (.mark c :: r) = none := by
  cases r with
  | nil => rfl
  | cons t r => cases t <;> rfl

theorem readMembers?_options (hne : l ≠ []) (hvalid : ∀ x, some x ∈ l → x.Valid) (r : List Token) :
    readMembers? ([Token.mark ','].intercalate (l.map optionTokens) ++ .mark ')' :: r) =
      if none ∈ l then none else some (l.filterMap id, r) := by
  induction l with
  | nil => exact absurd rfl hne
  | cons o l ih =>
    cases o with
    | none =>
      rw [if_pos List.mem_cons_self]
      cases l with
      | nil => exact readMembers?_mark ..
      | cons o' l =>
        rw [List.map_cons, List.map_cons, List.intercalate_cons_cons]
        exact readMembers?_mark ..
    | some x =>
      have hx : x.token.literal? = some x := (hvalid x List.mem_cons_self).literal?_token
      cases l with
      | nil =>
        rw [List.map_singleton, List.intercalate_singleton]
        simp [optionTokens, readMembers?, hx]
      | cons o' l =>
        have hrest := ih (by simp) fun y hy => hvalid y (List.mem_cons_of_mem _ hy)
        rw [List.map_cons, List.map_cons, List.intercalate_cons_cons, ← List.map_cons]
        have htokens : optionTokens (some x) ++ [Token.mark ','] = [x.token, .mark ','] := rfl
        rw [htokens, List.append_assoc, List.cons_append, List.singleton_append, readMembers?, hx]
        dsimp only
        rw [if_pos rfl, hrest]
        simp only [List.mem_cons, reduceCtorEq, false_or]
        split <;> simp

theorem eq_map_some_of_none_notMem (h : none ∉ l) : l = (l.filterMap id).map some := by
  induction l with
  | nil => rfl
  | cons o l ih =>
    cases o with
    | none => exact absurd List.mem_cons_self h
    | some x =>
      have hl : none ∉ l := fun hmem => h (List.mem_cons_of_mem _ hmem)
      rw [List.filterMap_cons_some (f := id) (b := x) rfl, List.map_cons, ← ih hl]

end Sql

namespace Filter

open Sql

variable {f : Filter} {fs : List Filter} {r : List Token}

def asked (f : Filter) : Condition := ⟨f.field, f.op, f.value.scalars⟩

/-- No empty array is among the values, and a comparison other than for membership has one scalar. -/
structure Fits (f : Filter) : Prop where
  filled : none ∉ f.value.scalars?
  single : f.op.asksMembership = true ∨ f.value.scalars.length = 1

def operatorTokens (f : Filter) : List Token :=
  match f.op with
  | .notIn => [.bare "NOT".toList, .bare "IN".toList]
  | op => [.bare op.text.toList]

def operandTokens (f : Filter) : List Token :=
  if f.op.asksMembership then .mark '(' :: (f.value.tokens ++ [.mark ')']) else f.value.tokens

def tokens (f : Filter) : List Token :=
  .bare f.field.toList :: (f.operatorTokens ++ f.operandTokens)

theorem text_eq (f : Filter) :
    f.text = f.field ++ " " ++ f.op.text ++ " " ++
      if f.op.asksMembership then "(" ++ literalText f.value ++ ")" else literalText f.value := by
  have hmembers : ", ".intercalate (memberTexts f.value) = literalText f.value := by
    cases f.value with
    | array items => rw [memberTexts, literalText]
    | null | bool | number | string | object => simp [memberTexts]
  cases hop : f.op with
  | isIn | notIn => simp [text, hop, hmembers, Comparison.asksMembership, ← String.toList_inj]
  | eq | neq | gt | gte | lt | lte | like => simp [text, hop, Comparison.asksMembership]

theorem lexesTo_operator (f : Filter) : LexesTo f.op.text.toList f.operatorTokens := by
  unfold operatorTokens
  cases f.op with
  | notIn =>
    have hnot : LexesTo "NOT".toList [.bare "NOT".toList] := lexesTo_name (by decide)
    have hin : LexesTo "IN".toList [.bare "IN".toList] := lexesTo_name (by decide)
    exact hnot.append hin.blank (stops_cons (by decide)) (by simp)
  | isIn | like => exact lexesTo_name (by decide)
  | eq | neq | gt | gte | lt | lte =>
    exact lexesTo_bare (by decide) (by simp [Comparison.text, goesOn, isAsciiBlank, isMark, isSign])

theorem lexesTo_operand (f : Filter) :
    LexesTo (if f.op.asksMembership then "(" ++ literalText f.value ++ ")"
      else literalText f.value).toList f.operandTokens := by
  have hvalue := f.value.lexesTo_literalText
  unfold operandTokens
  split
  · have hclose : LexesTo [')'] [.mark ')'] := LexesTo.nil.mark rfl
    have hmembers := hvalue.append hclose (stops_cons (by decide)) (by simp)
    simpa using LexesTo.mark (c := '(') rfl hmembers
  · exact hvalue

theorem lexesTo_text (h : Expr.Arithmetic.isName f.field.toList = true) :
    LexesTo f.text.toList f.tokens := by
  have hoperator :=
    f.lexesTo_operator.append f.lexesTo_operand.blank (stops_cons (by decide)) (by simp)
  have hfield := (lexesTo_name h).append hoperator.blank (stops_cons (by decide)) (by simp)
  rw [text_eq]
  simpa [tokens] using hfield

theorem lexesTo_joinText (h : ∀ f ∈ fs, Expr.Arithmetic.isName f.field.toList = true) :
    LexesTo (joinText fs).toList ([.bare "AND".toList].intercalate (fs.map tokens)) := by
  rw [joinText, String.toList_intercalate, List.map_map]
  refine lexesTo_intercalate (stops_cons (by decide)) (by decide) (fun {s ts} hs => ?_) ?_
  · have hand : LexesTo "AND".toList [.bare "AND".toList] := lexesTo_name (by decide)
    exact (hand.append hs.blank (stops_cons (by decide)) (by simp)).blank
  · rw [List.forall₂_map_left_iff, List.forall₂_map_right_iff, List.forall₂_same]
    exact fun f hf => lexesTo_text (h f hf)

theorem readComparison?_operatorTokens (f : Filter) (r : List Token) :
    readComparison? (f.operatorTokens ++ r) = some (f.op, r) := by
  unfold operatorTokens
  cases f.op <;> rfl

theorem readCondition?_tokens (h : Expr.Arithmetic.isName f.field.toList = true) (r : List Token) :
    readCondition? (f.tokens ++ r) =
      (readLiterals? f.op (f.operandTokens ++ r)).map fun p => (⟨f.field, f.op, p.1⟩, p.2) := by
  rw [tokens, List.cons_append, List.append_assoc, readCondition?, if_pos h,
    readComparison?_operatorTokens, String.ofList_toList]

theorem readMembers?_value (v : Value) (r : List Token) :
    readMembers? (v.tokens ++ .mark ')' :: r) =
      if none ∈ v.scalars? then none else some (v.scalars, r) :=
  readMembers?_options v.scalars?_ne_nil (fun _ => Value.valid_of_mem_scalars?) r

theorem Fits.readLiterals? (h : f.Fits) (r : List Token) :
    readLiterals? f.op (f.operandTokens ++ r) = some (f.value.scalars, r) := by
  unfold operandTokens
  split
  · next hop =>
    rw [List.cons_append, Sql.readLiterals?, if_pos hop, if_pos rfl, List.append_assoc,
      List.singleton_append, readMembers?_value, if_neg h.filled]
  · next hop =>
    obtain ⟨x, hx⟩ := List.length_eq_one_iff.1 (h.single.resolve_left hop)
    have hscalars : f.value.scalars? = [some x] := by
      rw [eq_map_some_of_none_notMem h.filled, ← Value.scalars, hx, List.map_singleton]
    have hvalid : x.Valid := Value.valid_of_mem_scalars? (hscalars ▸ List.mem_singleton_self _)
    have htokens : f.value.tokens = [x.token] := by
      rw [Value.tokens, hscalars]
      rfl
    rw [htokens, List.singleton_append, Sql.readLiterals?, if_neg hop, hvalid.literal?_token, hx]
    rfl

theorem head_of_readLiterals? (h : ¬f.Fits) {ls : List Literal} {r' : List Token}
    (hr : ∀ t ∈ r.head?, t.literal? = none)
    (hread : Sql.readLiterals? f.op (f.operandTokens ++ r) = some (ls, r')) :
    r'.head? = some (.mark ',') := by
  unfold operandTokens at hread
  split at hread
  · next hop =>
    rw [List.cons_append, Sql.readLiterals?, if_pos hop, if_pos rfl, List.append_assoc,
      List.singleton_append, readMembers?_value] at hread
    split at hread
    · cases hread
    · next hfilled => exact absurd ⟨hfilled, .inl hop⟩ h
  · next hop =>
    obtain ⟨-, htokens⟩ | ⟨x, -, hscalars, -⟩ | ⟨s, htokens⟩ | ⟨x, s, hx, htokens⟩ :=
      f.value.tokens_shape
    · rw [htokens, List.nil_append] at hread
      cases r with
      | nil => cases hread
      | cons t r =>
        rw [Sql.readLiterals?, if_neg hop, hr t rfl] at hread
        cases hread
    · exact absurd ⟨by simp [hscalars], .inr (by simp [Value.scalars, hscalars])⟩ h
    · rw [htokens, List.cons_append, Sql.readLiterals?, if_neg hop] at hread
      cases hread
    · rw [htokens, List.cons_append, Sql.readLiterals?, if_neg hop, hx.literal?_token] at hread
      cases hread
      rfl

theorem readConditions?_of_not_fits (hname : Expr.Arithmetic.isName f.field.toList = true)
    (h : ¬f.Fits) (hr : ∀ t ∈ r.head?, t.literal? = none) :
    readConditions? (f.tokens ++ r) = none := by
  refine readConditions?_comma fun c r' hread => ?_
  rw [readCondition?_tokens hname] at hread
  obtain ⟨p, hp, hpair⟩ := Option.map_eq_some_iff.1 hread
  obtain ⟨-, rfl⟩ := Prod.mk.inj hpair
  exact head_of_readLiterals? h hr hp

theorem Fits.readCondition? (h : f.Fits) (hname : Expr.Arithmetic.isName f.field.toList = true)
    (r : List Token) : readCondition? (f.tokens ++ r) = some (f.asked, r) := by
  rw [readCondition?_tokens hname, h.readLiterals?]
  rfl

theorem readConditions?_tokens (hne : fs ≠ [])
    (hnames : ∀ f ∈ fs, Expr.Arithmetic.isName f.field.toList = true) (cs : List Condition) :
    readConditions? ([.bare "AND".toList].intercalate (fs.map tokens)) = some cs ↔
      cs = fs.map asked ∧ ∀ f ∈ fs, f.Fits := by
  induction fs generalizing cs with
  | nil => exact absurd rfl hne
  | cons f fs ih =>
    obtain ⟨hname, hnames⟩ := List.forall_mem_cons.1 hnames
    rw [List.forall_mem_cons, List.map_cons, List.map_cons]
    cases fs with
    | nil =>
      rw [List.map_nil, List.intercalate_singleton, ← List.append_nil f.tokens]
      by_cases hf : f.Fits
      · rw [readConditions?_last (hf.readCondition? hname [])]
        simp [hf, eq_comm]
      · rw [readConditions?_of_not_fits hname hf (by simp)]
        simp [hf]
    | cons g fs =>
      rw [List.map_cons, List.intercalate_cons_cons, ← List.map_cons, List.append_assoc,
        List.singleton_append]
      by_cases hf : f.Fits
      · rw [readConditions?_and (hf.readCondition? hname _), Option.map_eq_some_iff]
        simp only [ih (by simp) hnames, hf, true_and]
        constructor
        · rintro ⟨_, ⟨rfl, hfits⟩, rfl⟩
          exact ⟨rfl, hfits⟩
        · rintro ⟨rfl, hfits⟩
          exact ⟨_, ⟨rfl, hfits⟩, rfl⟩
      · -- the next filter does not fill the gap, since its `AND` is no literal
        have hand : (Token.bare "AND".toList).literal? = none := by decide
        rw [readConditions?_of_not_fits hname hf (by simpa using hand)]
        simp [hf]

/-- The text of filters states conditions exactly if each of the filters fits, and it states what
the filters ask for. It is empty for no filters only. -/
theorem conditions_read_iff (fs : List Filter)
    (hnames : ∀ f ∈ fs, Expr.Arithmetic.isName f.field.toList = true) :
    (joinText fs = "" ↔ fs = []) ∧
      (fs ≠ [] → ∀ cs, conditions? (joinText fs) = some cs ↔
        cs = fs.map asked ∧ ∀ f ∈ fs, f.Fits) := by
  refine ⟨⟨fun h => ?_, fun h => h ▸ rfl⟩, fun hne cs => ?_⟩
  · cases fs with
    | nil => rfl
    | cons f fs => exact absurd h (joinText_ne_empty f fs)
  · rw [conditions?, (lexesTo_joinText hnames).tokens?]
    exact readConditions?_tokens hne hnames cs

def cityFilters : List Filter :=
  [⟨"city", .notIn, .array [.string "O'Fallon", .array [.null, .string " AND (x"]]⟩,
    ⟨"t.score", .gte, .array [.number (.real true ⟨Nat.pow 2 52, -53⟩)]⟩,
    ⟨"tags", .like, .object [("a", .bool true)]⟩]

theorem conditions_read_cities :
    (∀ f ∈ cityFilters, Expr.Arithmetic.isName f.field.toList = true) ∧ cityFilters ≠ [] ∧
      (∀ f ∈ cityFilters, f.Fits) ∧
      conditions? (joinText cityFilters) = some (cityFilters.map asked) := by
  have hnames : ∀ f ∈ cityFilters, Expr.Arithmetic.isName f.field.toList = true := by
    simp only [cityFilters, List.forall_mem_cons]
    decide
  have hne : cityFilters ≠ [] := List.cons_ne_nil _ _
  have hfits : ∀ f ∈ cityFilters, f.Fits := by
    simp only [cityFilters, List.forall_mem_cons]
    refine ⟨⟨?_, .inl rfl⟩, ⟨?_, .inr rfl⟩, ⟨?_, .inr rfl⟩, by simp⟩
    all_goals simp [Value.scalars?, Value.itemScalars?]
  exact ⟨hnames, hne, hfits, ((conditions_read_iff cityFilters hnames).2 hne _).2 ⟨rfl, hfits⟩⟩

/-- An empty array leaves a gap among the literals, where a text without it would be read. -/
theorem conditions_unread :
    let filter (op : Comparison) : Filter := ⟨"f", op, .array [.array [], .ofNat 1]⟩
    (joinText [filter .isIn] = "f IN (, 1)" ∧ conditions? "f IN (, 1)" = none ∧
      conditions? "f IN (1)" = some [asked (filter .isIn)]) ∧
    joinText [filter .eq] = "f = , 1" ∧ conditions? "f = , 1" = none ∧
      conditions? "f = 1" = some [asked (filter .eq)] := by
  refine ⟨⟨?_, ?_, ?_⟩, ?_, ?_, ?_⟩
  all_goals cbv

end Filter

end MetricSql
