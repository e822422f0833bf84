import MetricSql.Text.Order

namespace MetricSql.Text

variable {α : Type} {text : α → String} {s : String} {l : List α}

theorem foldl_choice_mem {f : String → String → String} (hf : ∀ a b, f a b = a ∨ f a b = b)
    (text : α → String) (a : String) (l : List α) :
    l.foldl (fun s y => f s (text y)) a ∈ a :: l.map text := by
  induction l generalizing a with
  | nil => exact List.mem_cons_self
  | cons y l ih =>
    rw [List.foldl_cons, List.map_cons]
    have hmem := ih (f a (text y))
    obtain h | h := hf a (text y)
    · rw [h] at hmem ⊢
      obtain h | h := List.mem_cons.mp hmem
      · exact List.mem_cons.mpr (Or.inl h)
      · exact List.mem_cons_of_mem _ (List.mem_cons_of_mem _ h)
    · rw [h] at hmem ⊢
      exact List.mem_cons_of_mem _ hmem

theorem leastOf_mem (h : leastOf text l = some s) : ∃ x ∈ l, text x = s := by
  cases l with
  | nil => cases h
  | cons x l =>
    obtain rfl := Option.some.inj h
    exact List.mem_map.mp (foldl_choice_mem (fun _ _ => lesser_eq_or) text (text x) l)

theorem greatestOf_mem (h : greatestOf text l = some s) : ∃ x ∈ l, text x = s := by
  cases l with
  | nil => cases h
  | cons x l =>
    obtain rfl := Option.some.inj h
    exact List.mem_map.mp (foldl_choice_mem (fun _ _ => greater_eq_or) text (text x) l)

theorem foldl_lesser_le (text : α → String) (a : String) (l : List α) :
    l.foldl (fun s y => lesser s (text y)) a ≤ a ∧
      ∀ y ∈ l, l.foldl (fun s y => lesser s (text y)) a ≤ text y := by
  induction l generalizing a with
  | nil => exact ⟨String.le_refl a, by simp⟩
  | cons y l ih =>
    obtain ⟨hstart, hrest⟩ := ih (lesser a (text y))
    obtain ⟨ha, hy⟩ := le_lesser_iff.mp hstart
    refine ⟨ha, fun z hz => ?_⟩
    obtain rfl | hz := List.mem_cons.mp hz
    · exact hy
    · exact hrest z hz

theorem le_foldl_greater (text : α → String) (a : String) (l : List α) :
    a ≤ l.foldl (fun s y => greater s (text y)) a ∧
      ∀ y ∈ l, text y ≤ l.foldl (fun s y => greater s (text y)) a := by
  induction l generalizing a with
  | nil => exact ⟨String.le_refl a, by simp⟩
  | cons y l ih =>
    obtain ⟨hstart, hrest⟩ := ih (greater a (text y))
    obtain ⟨ha, hy⟩ := greater_le_iff.mp hstart
    refine ⟨ha, fun z hz => ?_⟩
    obtain rfl | hz := List.mem_cons.mp hz
    · exact hy
    · exact hrest z hz

theorem exists_leastOf (text : α → String) {x : α} (hx : x ∈ l) :
    ∃ s, leastOf text l = some s ∧ s ≤ text x := by
  cases l with
  | nil => cases hx
  | cons y l =>
    obtain ⟨hy, hl⟩ := foldl_lesser_le text (text y) l
    refine ⟨_, rfl, ?_⟩
    obtain rfl | hx := List.mem_cons.mp hx
    · exact hy
    · exact hl x hx

theorem exists_greatestOf (text : α → String) {x : α} (hx : x ∈ l) :
    ∃ s, greatestOf text l = some s ∧ text x ≤ s := by
  cases l with
  | nil => cases hx
  | cons y l =>
    obtain ⟨hy, hl⟩ := le_foldl_greater text (text y) l
    refine ⟨_, rfl, ?_⟩
    obtain rfl | hx := List.mem_cons.mp hx
    · exact hy
    · exact hl x hx

end MetricSql.Text
