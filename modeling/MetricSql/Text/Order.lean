namespace MetricSql.Text

def lesser (a b : String) : String := if b < a then b else a

def greater (a b : String) : String := if a < b then b else a

variable {α : Type} {a b c : String}

theorem ordered_of_lt (h : a < b) : a ≤ b := String.not_lt.mp (String.lt_asymm h)

theorem lesser_eq_or : lesser a b = a ∨ lesser a b = b := by
  unfold lesser
  split <;> simp

theorem greater_eq_or : greater a b = a ∨ greater a b = b := by
  unfold greater
  split <;> simp

theorem le_lesser_iff : c ≤ lesser a b ↔ c ≤ a ∧ c ≤ b := by
  unfold lesser
  split
  · next h => exact ⟨fun k => ⟨String.le_trans k (ordered_of_lt h), k⟩, And.right⟩
  · next h => exact ⟨fun k => ⟨k, String.le_trans k (String.not_lt.mp h)⟩, And.left⟩

theorem greater_le_iff : greater a b ≤ c ↔ a ≤ c ∧ b ≤ c := by
  unfold greater
  split
  · next h => exact ⟨fun k => ⟨String.le_trans (ordered_of_lt h) k, k⟩, And.right⟩
  · next h => exact ⟨fun k => ⟨k, String.le_trans (String.not_lt.mp h) k⟩, And.left⟩

def leastOf (text : α → String) : List α → Option String
  | [] => none
  | x :: r => some (r.foldl (fun s y => lesser s (text y)) (text x))

def greatestOf (text : α → String) : List α → Option String
  | [] => none
  | x :: r => some (r.foldl (fun s y => greater s (text y)) (text x))

end MetricSql.Text
