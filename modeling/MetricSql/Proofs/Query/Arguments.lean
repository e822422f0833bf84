import MetricSql.Proofs.Text.Numbers
import MetricSql.Proofs.Text.Pieces

namespace MetricSql

open Text

namespace Text

def splitCommas : List Char → List (List Char)
  | [] => [[]]
  | c :: r =>
    if c = ',' then [] :: splitCommas r
    else if c = '\'' then
      (splitCommas (quotedSpan '\'' r).2).modifyHead (c :: (quotedSpan '\'' r).1 ++ ·)
    else (splitCommas r).modifyHead (c :: ·)
termination_by s => s.length
decreasing_by
  · simp
  · exact Nat.lt_succ_of_le (quotedSpan_length_le _ _)
  · simp

def Uncut (s : List Char) : Prop :=
  ∀ rest, (∀ c ∈ rest.head?, c = ',') →
    splitCommas (s ++ rest) = (splitCommas rest).modifyHead (s ++ ·)

variable {s : List Char} {l : List (List Char)}

theorem uncut_of_forall (h : ∀ c ∈ s, c ≠ ',' ∧ c ≠ '\'') : Uncut s := by
  intro rest hrest
  induction s with
  | nil => exact (congrFun List.modifyHead_id _).symm
  | cons c s ih =>
    obtain ⟨⟨hcomma, hquote⟩, hs⟩ := List.forall_mem_cons.1 h
    rw [List.cons_append, splitCommas, if_neg hcomma, if_neg hquote, ih hs,
      List.modifyHead_modifyHead]
    rfl

theorem uncut_literal (s : String) : Uncut (literal s).toList := by
  intro rest hrest
  have hhead : rest.head? ≠ some '\'' := fun h => absurd (hrest _ h) (by decide)
  rw [literal, String.toList_ofList, List.cons_append, List.append_assoc, List.singleton_append,
    splitCommas, if_neg (by decide), if_pos rfl, quotedSpan_doubleQuotes s.toList hhead]

theorem splitCommas_intercalate (hne : l ≠ []) (h : ∀ s ∈ l, Uncut s) :
    splitCommas ([','].intercalate l) = l := by
  refine split_intercalate hne (fun s hs => ?_) fun s hs rest => ?_
  · have hsplit := h s hs [] (by simp)
    rwa [List.append_nil, splitCommas, List.modifyHead_cons, List.append_nil] at hsplit
  · rw [h s hs _ (by simp), splitCommas, if_pos rfl, List.modifyHead_cons, List.append_nil]

end Text

namespace Aggregator

/-- An argument as it stands in a text: bare, or as the value of a literal. -/
inductive Argument
  | bare (s : List Char)
  | quoted (s : List Char)
  deriving DecidableEq

namespace Argument

def value : Argument → String
  | bare s => .ofList s
  | quoted s => .ofList s

def isBare : Argument → Bool
  | bare _ => true
  | quoted _ => false

def ofChars? (s : List Char) : Option Argument :=
  match Pieces.ofChars? s with
  | some (.last s) => some (bare s)
  | some (.cons [] s (.last [])) => some (quoted s)
  | _ => none

theorem ofChars?_bare {s : List Char} (h : '\'' ∉ s) : ofChars? s = some (bare s) := by
  have hread := Pieces.ofChars?_text (p := .last s) h
  rw [Pieces.text] at hread
  rw [ofChars?, hread]

theorem ofChars?_literal (s : String) : ofChars? (literal s).toList = some (quoted s.toList) := by
  have hclean : (Pieces.quoted s).Clean := ⟨by simp, by simp [Pieces.text], by simp [Pieces.Clean]⟩
  have hread := Pieces.ofChars?_text hclean
  rw [Pieces.text_quoted] at hread
  rw [ofChars?, hread]
  rfl

end Argument

def arguments? (s : String) : Option (List Argument) :=
  (splitCommas s.toList).mapM Argument.ofChars?

variable {a : Aggregator} {arg : String}

def argument (a : Aggregator) (arg : String) : Argument :=
  if arg = a.column ∨ isNumeric arg.toList then .bare arg.toList else .quoted arg.toList

theorem value_argument (a : Aggregator) (arg : String) : (a.argument arg).value = arg := by
  unfold argument
  split <;> simp [Argument.value]

theorem isBare_argument : (a.argument arg).isBare = true ↔ arg = a.column ∨ IsSigned arg.toList := by
  rw [argument, ← isNumeric_iff]
  split <;> simp_all [Argument.isBare]

theorem plain_of_bare (hcol : Expr.Arithmetic.isName a.column.toList = true)
    (h : arg = a.column ∨ isNumeric arg.toList = true) :
    ∀ c ∈ arg.toList, c ≠ ',' ∧ c ≠ '\'' := by
  have hplain : ∀ c, Expr.isWordChar c = true ∨ c = '+' ∨ c = '-' → c ≠ ',' ∧ c ≠ '\'' := by
    rintro c hc
    constructor <;> rintro rfl <;> revert hc <;> decide
  intro c hc
  apply hplain
  obtain rfl | h := h
  · exact .inl ((Expr.Arithmetic.isName_eq_true hcol).2 c hc)
  · obtain ⟨sign, r, hsign, hs, hr⟩ := isNumeric_iff.1 h
    rw [hs, List.mem_append] at hc
    obtain hc | hc := hc
    · obtain rfl | rfl | rfl := hsign
      · cases hc
      · exact .inr (.inl (List.mem_singleton.1 hc))
      · exact .inr (.inr (List.mem_singleton.1 hc))
    · exact .inl (Expr.Arithmetic.Lexeme.isWordChar_number hr c hc)

theorem uncut_argText (hcol : Expr.Arithmetic.isName a.column.toList = true) (arg : String) :
    Uncut (a.argText arg).toList := by
  unfold argText
  split
  · next h => exact uncut_of_forall (plain_of_bare hcol h)
  · exact uncut_literal arg

theorem ofChars?_argText (hcol : Expr.Arithmetic.isName a.column.toList = true) (arg : String) :
    Argument.ofChars? (a.argText arg).toList = some (a.argument arg) := by
  unfold argText argument
  split
  · next h => exact Argument.ofChars?_bare fun hc => (plain_of_bare hcol h _ hc).2 rfl
  · exact Argument.ofChars?_literal arg

theorem arguments?_intercalate (hcol : Expr.Arithmetic.isName a.column.toList = true)
    {args : List String} (hne : args ≠ []) :
    arguments? (",".intercalate (args.map a.argText)) = some (args.map a.argument) := by
  have hsplit : splitCommas ([','].intercalate (args.map fun arg => (a.argText arg).toList)) =
      args.map fun arg => (a.argText arg).toList :=
    splitCommas_intercalate (by simpa using hne)
      (List.forall_mem_map.2 fun arg _ => uncut_argText hcol arg)
  rw [arguments?, String.toList_intercalate, List.map_map]
  change (splitCommas ([','].intercalate (args.map fun arg => (a.argText arg).toList))).mapM _ = _
  rw [hsplit, List.mapM_map]
  exact mapM_eq_some fun arg _ => ofChars?_argText hcol arg

/-- The arguments of an aggregate are read back from its text, and exactly the numbers and the column
stand there without quotes. -/
theorem arguments_read_back (a : Aggregator) (hfunc : a.func ≠ .countDistinct)
    (hcol : Expr.Arithmetic.isName a.column.toList = true) (hargs : a.args ≠ []) :
    ∃ (text : String) (items : List Argument),
      a.text = a.func.name ++ "( " ++ text ++ " ) AS " ++ a.column ++ " " ∧
      arguments? text = some items ∧ items.map Argument.value = a.args ∧
      ∀ item ∈ items, item.isBare = true ↔ item.value = a.column ∨ IsSigned item.value.toList := by
  refine ⟨",".intercalate (a.args.map a.argText), a.args.map a.argument, ?_,
    arguments?_intercalate hcol hargs, ?_, List.forall_mem_map.2 fun arg _ => ?_⟩
  · simp only [text, hfunc, hargs, if_false]
  · simp only [List.map_map, Function.comp_def, value_argument, List.map_id']
  · rw [value_argument]
    exact isBare_argument

theorem arguments_read_back_latency :
    let a : Aggregator :=
      ⟨.percentile, "latency", ["latency", "-.5", "p'95", "", "a,'b", "1e5", "inf", "٣"]⟩
    a.text = "percentile( latency,-.5,'p''95','','a,''b','1e5','inf','٣' ) AS latency " ∧
      a.func ≠ .countDistinct ∧ Expr.Arithmetic.isName a.column.toList = true ∧ a.args ≠ [] ∧
      ∃ (text : String) (items : List Argument),
        a.text = a.func.name ++ "( " ++ text ++ " ) AS " ++ a.column ++ " " ∧
        arguments? text = some items ∧ items.map Argument.value = a.args ∧
        ∀ item ∈ items, item.isBare = true ↔ item.value = a.column ∨ IsSigned item.value.toList := by
  intro a
  have hcol : Expr.Arithmetic.isName a.column.toList = true := by decide
  exact ⟨by decide +kernel, by decide, hcol, by decide,
    arguments_read_back a (by decide) hcol (by decide)⟩

end Aggregator

end MetricSql
