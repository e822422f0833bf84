import MetricSql.Proofs.Expansion.Merging

namespace MetricSql

open Text

section Occurrence

variable {α : Type}

def FirstWith (p : α → Prop) (l : List α) (x : α) : Prop :=
  ∃ before after, l = before ++ x :: after ∧ p x ∧ ∀ y ∈ before, ¬p y

def LastWith (p : α → Prop) (l : List α) (x : α) : Prop :=
  ∃ before after, l = before ++ x :: after ∧ p x ∧ ∀ y ∈ after, ¬p y

variable {p : α → Prop} {q : α → Bool} {l : List α} {x : α}

theorem firstWith_reverse_iff : FirstWith p l.reverse x ↔ LastWith p l x := by
  constructor
  · rintro ⟨before, after, h, hx, hbefore⟩
    refine ⟨after.reverse, before.reverse, ?_, hx, by simpa using hbefore⟩
    rw [← List.reverse_reverse l, h]
    simp
  · rintro ⟨before, after, rfl, hx, hafter⟩
    exact ⟨after.reverse, before.reverse, by simp, hx, by simpa using hafter⟩

theorem find?_eq_some_iff_firstWith (hq : ∀ y, q y = true ↔ p y) :
    l.find? q = some x ↔ FirstWith p l x := by
  rw [List.find?_eq_some_iff_append, ← exists_and_left]
  refine exists_congr fun before => ?_
  rw [← exists_and_left]
  refine exists_congr fun after => ?_
  rw [and_left_comm]
  simp only [Bool.not_eq_true', Bool.eq_false_iff, ne_eq, hq]

end Occurrence

def Document.concat (ds : List Document) : Document where
  metrics := ds.flatMap (·.metrics)
  measures := ds.flatMap (·.measures)
  dimensions := ds.flatMap (·.dimensions)
  fields := ds.flatMap (·.fields)

namespace Registry

variable {r : Registry} {d : Document} {ds : List Document} {ms added : List Measure} {m : Measure}
  {n : String}

def ofDocuments (ds : List Document) : Registry := ds.foldl merge {}

theorem merge_concat_cons (r : Registry) (d : Document) (ds : List Document) :
    (r.merge d).merge (.concat ds) = r.merge (.concat (d :: ds)) := by
  simp only [merge, Document.concat, List.flatMap_cons, List.append_assoc, List.foldl_append,
    NameSet.insertAll]

theorem foldl_merge (r : Registry) (ds : List Document) :
    ds.foldl merge r = r.merge (.concat ds) := by
  induction ds generalizing r with
  | nil => simp [merge, Document.concat, NameSet.insertAll]
  | cons d ds ih => rw [List.foldl_cons, ih, merge_concat_cons]

theorem findMeasure?_ofDocument (d : Document) (n : String) :
    (ofDocument d).findMeasure? n = d.measures.reverse.find? (·.bizName == n) := by
  rw [findMeasure?, ofDocument, merge, find?_foldl_putMeasure, List.find?_nil, Option.or_none]

theorem isSome_findMeasure?_ofDocument :
    ((ofDocument d).findMeasure? n).isSome = true ↔ ∃ m ∈ d.measures, m.bizName = n := by
  rw [findMeasure?_ofDocument, List.find?_isSome]
  simp

theorem isSome_findDimension?_ofDocument :
    ((ofDocument d).findDimension? n).isSome = true ↔ ∃ x ∈ d.dimensions, x.bizName = n := by
  rw [findDimension?, List.find?_isSome]
  simp [ofDocument, merge]

theorem hasField_ofDocument :
    (ofDocument d).hasField n = true ↔
      n ∈ d.fields ∨ (∃ m ∈ d.measures, m.bizName = n) ∨ ∃ x ∈ d.dimensions, x.bizName = n := by
  have hfields : n ∈ (ofDocument d).fields ↔ n ∈ d.fields := by
    simp [ofDocument, merge]
  rw [hasField, Bool.or_eq_true, Bool.or_eq_true, NameSet.contains_iff, hfields,
    isSome_findMeasure?_ofDocument, isSome_findDimension?_ofDocument, or_assoc]

/-- Documents that are merged one after the other make the registry of all their definitions in
order, whatever stands in which document. The first metric and the first dimension with a name are
found, and the last measure. -/
theorem merged_as_one (ds : List Document) (name : String) :
    let r := ofDocuments ds
    let all := Document.concat ds
    r = ofDocument all ∧ r.metrics = all.metrics ∧
      (∀ m, r.findMetric? name = some m ↔
        FirstWith (fun k => foldCase k.bizName.toList = foldCase name.toList) all.metrics m) ∧
      (∀ m, r.findMeasure? name = some m ↔ LastWith (·.bizName = name) all.measures m) ∧
      (∀ x, r.findDimension? name = some x ↔ FirstWith (·.bizName = name) all.dimensions x) ∧
      (r.hasField name = true ↔ ∃ d ∈ ds, name ∈ d.fields ∨
        (∃ m ∈ d.measures, m.bizName = name) ∨ ∃ x ∈ d.dimensions, x.bizName = name) := by
  intro r all
  have hr : r = ofDocument all := foldl_merge {} ds
  refine ⟨hr, ?_, fun m => ?_, fun m => ?_, fun x => ?_, ?_⟩
  · rw [hr, ofDocument, merge, List.nil_append]
  · rw [hr]
    exact find?_eq_some_iff_firstWith fun k => sameName_iff
  · rw [hr, findMeasure?_ofDocument, ← firstWith_reverse_iff]
    exact find?_eq_some_iff_firstWith fun k => beq_iff_eq
  · rw [hr]
    exact find?_eq_some_iff_firstWith fun k => beq_iff_eq
  · rw [hr, hasField_ofDocument]
    simp only [all, Document.concat, List.mem_flatMap]
    grind

end Registry

end MetricSql
