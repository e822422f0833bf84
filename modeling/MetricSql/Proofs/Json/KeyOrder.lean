import Mathlib.Data.List.MinMax
import Mathlib.Data.List.Sort
import Mathlib.Data.String.Basic
import MetricSql.Proofs.Json.Reading

namespace MetricSql.Json.Value

variable {v : Value} {k : String} {f : String × Value} {items : List Value}
  {done fields : List (String × Value)} {d : Nat}

theorem insertField_cons (h : k ≠ f.1) (v : Value) (fields : List (String × Value)) :
    k < f.1 ∧ insertField k v (f :: fields) = (k, v) :: f :: fields ∨
      f.1 < k ∧ insertField k v (f :: fields) = f :: insertField k v fields := by
  rw [insertField]
  obtain hlt | hlt := lt_or_gt_of_ne h
  · exact .inl ⟨hlt, if_pos hlt⟩
  · exact .inr ⟨hlt, by rw [if_neg (not_lt_of_gt hlt), if_pos hlt]⟩

theorem perm_insertField (h : k ∉ fields.map Prod.fst) :
    (insertField k v fields).Perm ((k, v) :: fields) := by
  induction fields with
  | nil => exact .refl _
  | cons f fields ih =>
    rw [List.map_cons, List.mem_cons, not_or] at h
    obtain ⟨-, heq⟩ | ⟨-, heq⟩ := insertField_cons h.1 v fields
    · rw [heq]
    · rw [heq]
      exact ((ih h.2).cons f).trans (.swap _ _ _)

theorem pairwise_insertField (h : k ∉ fields.map Prod.fst)
    (hsorted : fields.Pairwise fun f g => f.1 < g.1) :
    (insertField k v fields).Pairwise fun f g => f.1 < g.1 := by
  induction fields with
  | nil => exact List.pairwise_singleton _ _
  | cons f fields ih =>
    rw [List.map_cons, List.mem_cons, not_or] at h
    obtain ⟨hf, hfields⟩ := List.pairwise_cons.1 hsorted
    obtain ⟨hlt, heq⟩ | ⟨hlt, heq⟩ := insertField_cons h.1 v fields
    · rw [heq]
      refine List.pairwise_cons.2 ⟨fun g hg => ?_, hsorted⟩
      obtain rfl | hg := List.mem_cons.1 hg
      · exact hlt
      · exact lt_trans hlt (hf g hg)
    · rw [heq]
      refine List.pairwise_cons.2 ⟨fun g hg => ?_, ih h.2 hfields⟩
      obtain rfl | hg := List.mem_cons.1 ((perm_insertField h.2).mem_iff.1 hg)
      · exact hlt
      · exact hf g hg

def inKeyOrder (fields : List (String × Value)) : List (String × Value) :=
  fields.mergeSort fun f g => f.1 ≤ g.1

/-- Fields with different keys stand in the order of their keys in one way only. -/
theorem inKeyOrder_eq_of_perm (hperm : done.Perm fields)
    (hsorted : done.Pairwise fun f g => f.1 < g.1) : inKeyOrder fields = done := by
  have hle : (inKeyOrder fields).Pairwise fun f g => f.1 ≤ g.1 := by
    refine (List.pairwise_mergeSort ?_ ?_ fields).imp of_decide_eq_true
    · intro f g h hfg hgh
      exact decide_eq_true (le_trans (of_decide_eq_true hfg) (of_decide_eq_true hgh))
    · intro f g
      simpa using le_total f.1 g.1
  have hkeys : (done.map Prod.fst).Nodup :=
    List.pairwise_map.2 (hsorted.imp fun hlt => ne_of_lt hlt)
  have hdone : (inKeyOrder fields).Perm done := (List.mergeSort_perm _ _).trans hperm.symm
  refine hdone.eq_of_pairwise (fun f g hf hg hfg hgf => ?_) hle (hsorted.imp fun hlt => le_of_lt hlt)
  exact List.inj_on_of_nodup_map hkeys (hdone.mem_iff.1 hf) hg (le_antisymm hfg hgf)

theorem foldl_insertField (hnodup : ((done ++ fields).map Prod.fst).Nodup)
    (hsorted : done.Pairwise fun f g => f.1 < g.1) :
    fields.foldl (fun done f => insertField f.1 f.2 done) done = inKeyOrder (done ++ fields) := by
  suffices h : ∃ l, fields.foldl (fun done f => insertField f.1 f.2 done) done = l ∧
      l.Perm (done ++ fields) ∧ l.Pairwise fun f g => f.1 < g.1 by
    obtain ⟨l, hl, hperm, hpairwise⟩ := h
    rw [hl, inKeyOrder_eq_of_perm hperm hpairwise]
  induction fields generalizing done with
  | nil => exact ⟨done, rfl, by rw [List.append_nil], hsorted⟩
  | cons f fields ih =>
    have hnew : f.1 ∉ done.map Prod.fst := by
      rw [List.map_append, List.map_cons] at hnodup
      intro hmem
      exact (List.nodup_append.1 hnodup).2.2 _ hmem _ List.mem_cons_self rfl
    have hperm : (insertField f.1 f.2 done ++ fields).Perm (done ++ f :: fields) :=
      ((perm_insertField hnew).append_right fields).trans List.perm_middle.symm
    obtain ⟨l, hl, hlperm, hpairwise⟩ := ih ((hperm.map Prod.fst).nodup_iff.2 hnodup)
      (pairwise_insertField hnew hsorted)
    exact ⟨l, hl, hlperm.trans hperm, hpairwise⟩

def depth : Value → Nat
  | array items => (items.map depth).foldr max 0 + 1
  | object fields => (fields.map fun f => f.2.depth).foldr max 0 + 1
  | _ => 0
decreasing_by
  · exact sizeOf_item_lt ‹_›
  · exact sizeOf_field_lt ‹_›

theorem depth_lt_array (h : v ∈ items) : v.depth < (array items).depth := by
  rw [depth]
  exact Nat.lt_succ_of_le (List.le_max_of_le' 0 (List.mem_map.2 ⟨_, h, rfl⟩) le_rfl)

theorem depth_lt_object (h : f ∈ fields) : f.2.depth < (object fields).depth := by
  rw [depth]
  exact Nat.lt_succ_of_le (List.le_max_of_le' 0 (List.mem_map.2 ⟨_, h, rfl⟩) le_rfl)

def ordered : Value → Value
  | array items => .array (items.map ordered)
  | object fields => .object (inKeyOrder (fields.map fun f => (f.1, f.2.ordered)))
  | v => v
decreasing_by
  · exact sizeOf_item_lt ‹_›
  · exact sizeOf_field_lt ‹_›

inductive InOrder : Value → Prop
  | null : InOrder .null
  | bool (b : Bool) : InOrder (.bool b)
  | number (n : Number) : InOrder (.number n)
  | string (s : String) : InOrder (.string s)
  | array {items : List Value} : (∀ v ∈ items, InOrder v) → InOrder (.array items)
  | object {fields : List (String × Value)} : (fields.Pairwise fun f g => f.1 < g.1) →
      (∀ f ∈ fields, InOrder f.2) → InOrder (.object fields)

theorem InOrder.ordered_eq (h : InOrder v) : v.ordered = v := by
  induction h with
  | null | bool b | number n | string s => simp only [ordered]
  | array _ ih => rw [ordered, List.map_congr_left ih, List.map_id']
  | @object fields hsorted _ ih =>
    have hfields : (fields.map fun f => (f.1, f.2.ordered)) = fields := by
      refine (List.map_congr_left fun f hf => ?_).trans (List.map_id fields)
      rw [ih f hf]
      rfl
    rw [ordered, hfields, inKeyOrder_eq_of_perm (.refl _) hsorted]

theorem ofTrees?_map (h : ∀ v ∈ items, ofTree? d v.tree = some v.ordered) :
    ofTrees? d (items.map tree) = some (items.map ordered) := by
  induction items with
  | nil => rfl
  | cons v items ih =>
    rw [List.map_cons, ofTrees?, h v List.mem_cons_self,
      ih fun w hw => h w (List.mem_cons_of_mem _ hw)]
    rfl

theorem ofFields?_map (h : ∀ f ∈ fields, ofTree? d f.2.tree = some f.2.ordered) :
    ofFields? d done (fields.map fun f => (some f.1, f.2.tree)) =
      some ((fields.map fun f => (f.1, f.2.ordered)).foldl
        (fun done f => insertField f.1 f.2 done) done) := by
  induction fields generalizing done with
  | nil => rfl
  | cons f fields ih =>
    rw [List.map_cons, ofFields?, h f List.mem_cons_self, Option.bind_eq_bind, Option.bind_some,
      ih fun g hg => h g (List.mem_cons_of_mem _ hg), List.map_cons, List.foldl_cons]

/-- A value that nests no deeper than is allowed is read back, with its fields in order. -/
theorem Exact.ofTree?_tree (h : Exact v) (hd : v.depth ≤ d) : ofTree? d v.tree = some v.ordered := by
  induction h generalizing d with
  | null | bool b | string s => simp [tree, ofTree?, ordered]
  | integer hlow hhigh =>
    simp [tree, ofTree?, ordered, lexeme_integer, integerLexeme_number? hlow hhigh]
  | @array items h ih =>
    obtain ⟨d, rfl⟩ : ∃ k, d = k + 1 := ⟨d - 1, by rw [depth] at hd; omega⟩
    have hitems (v : Value) (hv : v ∈ items) : ofTree? d v.tree = some v.ordered :=
      ih v hv (Nat.le_of_lt_succ (Nat.lt_of_lt_of_le (depth_lt_array hv) hd))
    rw [tree, ofTree?, ofTrees?_map hitems, Option.map_some, ordered]
  | @object fields hnodup h ih =>
    obtain ⟨d, rfl⟩ : ∃ k, d = k + 1 := ⟨d - 1, by rw [depth] at hd; omega⟩
    have hfields (f : String × Value) (hf : f ∈ fields) : ofTree? d f.2.tree = some f.2.ordered :=
      ih f hf (Nat.le_of_lt_succ (Nat.lt_of_lt_of_le (depth_lt_object hf) hd))
    have hkeys : ((fields.map fun f => (f.1, f.2.ordered)).map Prod.fst).Nodup := by
      rwa [List.map_map]
    rw [tree, ofTree?, ofFields?_map hfields, Option.map_some, ordered, foldl_insertField hkeys .nil,
      List.nil_append]

end MetricSql.Json.Value
