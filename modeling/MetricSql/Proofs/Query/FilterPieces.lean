import Mathlib.Data.List.Basic
import MetricSql.Proofs.Json.NumberForm
import MetricSql.Proofs.Text.Pieces
import MetricSql.Query.Filter

namespace MetricSql

open Text

namespace Json.Value

mutual

/-- The texts that are quoted in a value: its strings, and the compact texts of its objects. -/
def quotedTexts : Value → List String
  | null => []
  | bool _ => []
  | number _ => []
  | string s => [s]
  | array items => itemsQuotedTexts items
  | object fields => [(object fields).compact]

def itemsQuotedTexts : List Value → List String
  | [] => []
  | v :: r => v.quotedTexts ++ itemsQuotedTexts r

end

mutual

def shape : Value → Value
  | string _ => string ""
  | object _ => object []
  | array items => array (itemShapes items)
  | v => v

def itemShapes : List Value → List Value
  | [] => []
  | v :: r => v.shape :: itemShapes r

end

mutual

def pieces : Value → Pieces
  | null => .last "NULL".toList
  | bool b => .last (if b then "true" else "false").toList
  | number n => .last n.chars
  | string s => .quoted s
  | array items => .join ", ".toList (itemPieces items)
  | object fields => .quoted (object fields).compact

def itemPieces : List Value → List Pieces
  | [] => []
  | v :: r => v.pieces :: itemPieces r

end

mutual

theorem text_pieces : ∀ v : Value, v.pieces.text = (literalText v).toList
  | .null => rfl
  | .bool b => rfl
  | .number n => by rw [literalText, String.toList_ofList]; rfl
  | .string s => by rw [pieces, Pieces.text_quoted, literalText]
  | .array items => by
    rw [pieces, Pieces.text_join, text_itemPieces items, literalText,
      String.toList_intercalate]
  | .object fields => by rw [pieces, Pieces.text_quoted, literalText]

theorem text_itemPieces : ∀ items : List Value,
    (itemPieces items).map Pieces.text = (literalTexts items).map String.toList
  | [] => rfl
  | v :: r => by
    rw [itemPieces, literalTexts, List.map_cons, List.map_cons, text_pieces v,
      text_itemPieces r]

end

mutual

theorem values_pieces : ∀ v : Value, v.pieces.values = v.quotedTexts.map String.toList
  | .null => rfl
  | .bool b => rfl
  | .number n => rfl
  | .string s => rfl
  | .array items => by rw [pieces, Pieces.values_join, values_itemPieces items]; rfl
  | .object fields => by rw [pieces, quotedTexts]; rfl

theorem values_itemPieces : ∀ items : List Value,
    (itemPieces items).flatMap Pieces.values =
      (itemsQuotedTexts items).map String.toList
  | [] => rfl
  | v :: r => by
    rw [itemPieces, itemsQuotedTexts, List.flatMap_cons, List.map_append,
      values_pieces v, values_itemPieces r]

end

mutual

theorem skeleton_pieces : ∀ v : Value, v.pieces.skeleton = v.shape.pieces.skeleton
  | .null => rfl
  | .bool b => rfl
  | .number n => rfl
  | .string s => rfl
  | .array items => by
    rw [shape, pieces, pieces, Pieces.skeleton_join, Pieces.skeleton_join,
      skeleton_itemPieces items]
  | .object fields => by
    rw [shape, pieces, pieces]
    rfl

theorem skeleton_itemPieces : ∀ items : List Value,
    (itemPieces items).map Pieces.skeleton =
      (itemPieces (itemShapes items)).map Pieces.skeleton
  | [] => rfl
  | v :: r => by
    rw [itemShapes, itemPieces, itemPieces, List.map_cons, List.map_cons,
      skeleton_pieces v, skeleton_itemPieces r]

end

theorem clean_quoted (s : String) : (Pieces.quoted s).Clean :=
  ⟨List.not_mem_nil, by simp [Pieces.text], List.not_mem_nil⟩

mutual

theorem clean_pieces : ∀ v : Value, v.pieces.Clean
  | .null => show '\'' ∉ "NULL".toList by decide
  | .bool true => show '\'' ∉ "true".toList by decide
  | .bool false => show '\'' ∉ "false".toList by decide
  | .number n => fun h => absurd (n.isNumberChar_of_mem h) (by decide)
  | .string s => clean_quoted s
  | .array items => by
    rw [pieces]
    exact Pieces.Clean.join (by decide) (by decide) (clean_itemPieces items)
  | .object fields => by
    rw [pieces]
    exact clean_quoted _

theorem clean_itemPieces : ∀ items : List Value, ∀ p ∈ itemPieces items, p.Clean
  | [], _, h => nomatch h
  | v :: r, p, h => by
    rw [itemPieces] at h
    obtain rfl | h := List.mem_cons.mp h
    · exact clean_pieces v
    · exact clean_itemPieces r p h

end

end Json.Value

open Json

namespace Filter

def shape (f : Filter) : Filter := { f with value := f.value.shape }

def memberPieces : Value → List Pieces
  | .array items => Value.itemPieces items
  | v => [v.pieces]

def operandPieces (f : Filter) : Pieces :=
  match f.op with
  | .isIn | .notIn =>
    (Pieces.join ", ".toList (memberPieces f.value) ++ .last [')']).prepend ['(']
  | _ => f.value.pieces

def pieces (f : Filter) : Pieces :=
  f.operandPieces.prepend (f.field ++ " " ++ f.op.text ++ " ").toList

theorem text_memberPieces (v : Value) :
    (memberPieces v).map Pieces.text = (memberTexts v).map String.toList := by
  cases v with
  | array items => exact Value.text_itemPieces items
  | null | bool | number | string | object => simp [memberPieces, memberTexts, Value.text_pieces]

theorem text_pieces (f : Filter) : f.pieces.text = f.text.toList := by
  have hmembers :
      ((Pieces.join ", ".toList (memberPieces f.value) ++ .last [')']).prepend ['(']).text =
        ("(" ++ ", ".intercalate (memberTexts f.value) ++ ")").toList := by
    simp [Pieces.text_join, text_memberPieces, Pieces.text, String.toList_intercalate]
  cases hop : f.op with
  | isIn | notIn =>
    rw [pieces, Pieces.text_prepend, operandPieces, hop]
    simp only [hmembers, text, hop, String.toList_append, List.append_assoc]
  | eq | neq | gt | gte | lt | lte | like =>
    rw [pieces, Pieces.text_prepend, operandPieces, hop]
    simp only [Value.text_pieces, text, hop, String.toList_append]

theorem values_memberPieces (v : Value) :
    (memberPieces v).flatMap Pieces.values = v.quotedTexts.map String.toList := by
  cases v with
  | array items => exact Value.values_itemPieces items
  | null | bool | number | string | object => simp [memberPieces, Value.values_pieces]

theorem values_pieces (f : Filter) : f.pieces.values = f.value.quotedTexts.map String.toList := by
  rw [pieces, Pieces.values_prepend]
  cases hop : f.op with
  | isIn | notIn =>
    simp [operandPieces, hop, Pieces.values_join, values_memberPieces, Pieces.values]
  | eq | neq | gt | gte | lt | lte | like => simp only [operandPieces, hop, Value.values_pieces]

theorem skeleton_memberPieces (v : Value) :
    (memberPieces v).map Pieces.skeleton = (memberPieces v.shape).map Pieces.skeleton := by
  cases v with
  | array items =>
    rw [Value.shape]
    exact Value.skeleton_itemPieces items
  | null | bool | number => rfl
  | string | object =>
    rw [Value.shape]
    simp [memberPieces, Value.skeleton_pieces, Value.shape]

theorem skeleton_pieces (f : Filter) : f.pieces.skeleton = f.shape.pieces.skeleton := by
  rw [pieces, pieces, Pieces.skeleton_prepend, Pieces.skeleton_prepend]
  congr 1
  cases hop : f.op with
  | isIn | notIn =>
    simp [operandPieces, shape, hop, Pieces.skeleton_join, skeleton_memberPieces f.value]
  | eq | neq | gt | gte | lt | lte | like =>
    simp only [operandPieces, shape, hop, Value.skeleton_pieces f.value]

theorem clean_memberPieces (v : Value) : ∀ p ∈ memberPieces v, p.Clean := by
  cases v with
  | array items => exact Value.clean_itemPieces items
  | null | bool | number | string | object =>
    intro p hp
    rw [List.mem_singleton.mp hp]
    exact Value.clean_pieces _

theorem clean_pieces {f : Filter} (h : '\'' ∉ f.field.toList) : f.pieces.Clean := by
  have hop : '\'' ∉ f.op.text.toList := by cases f.op <;> decide
  refine Pieces.Clean.prepend (by simp [h, hop]) ?_
  cases hop : f.op with
  | isIn | notIn =>
    rw [operandPieces, hop]
    refine Pieces.Clean.prepend (by decide) (Pieces.Clean.append ?_ ?_ (by decide))
    · exact Pieces.Clean.join (by decide) (by decide) (clean_memberPieces f.value)
    · exact show '\'' ∉ [')'] by decide
  | eq | neq | gt | gte | lt | lte | like =>
    rw [operandPieces, hop]
    exact Value.clean_pieces f.value

theorem text_ne_empty (f : Filter) : f.text ≠ "" := by
  intro h
  have hlen := congrArg List.length (f.text_pieces.trans (congrArg String.toList h))
  simp [pieces] at hlen

theorem joinText_ne_empty (f : Filter) (fs : List Filter) : joinText (f :: fs) ≠ "" := by
  cases fs with
  | nil => simpa [joinText] using f.text_ne_empty
  | cons g fs => simp [joinText, String.intercalate_cons_cons, f.text_ne_empty]

def joinPieces (fs : List Filter) : Pieces := .join " AND ".toList (fs.map pieces)

theorem text_joinPieces (fs : List Filter) : (joinPieces fs).text = (joinText fs).toList := by
  rw [joinPieces, Pieces.text_join, joinText, String.toList_intercalate, List.map_map, List.map_map]
  exact congrArg _ (List.map_congr_left fun f _ => f.text_pieces)

theorem values_joinPieces (fs : List Filter) :
    (joinPieces fs).values = (fs.flatMap fun f => f.value.quotedTexts).map String.toList := by
  rw [joinPieces, Pieces.values_join, List.map_flatMap, List.flatMap_map]
  exact List.flatMap_congr fun f _ => f.values_pieces

theorem skeleton_joinPieces (fs : List Filter) :
    (joinPieces fs).skeleton = (joinPieces (fs.map shape)).skeleton := by
  rw [joinPieces, joinPieces, Pieces.skeleton_join, Pieces.skeleton_join, List.map_map,
    List.map_map, List.map_map]
  exact congrArg _ (List.map_congr_left fun f _ => f.skeleton_pieces)

theorem clean_joinPieces {fs : List Filter} (h : ∀ f ∈ fs, '\'' ∉ f.field.toList) :
    (joinPieces fs).Clean := by
  refine Pieces.Clean.join (by decide) (by decide) fun p hp => ?_
  obtain ⟨f, hf, rfl⟩ := List.mem_map.mp hp
  exact clean_pieces (h f hf)

end Filter

end MetricSql
