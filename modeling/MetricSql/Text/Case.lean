namespace MetricSql.Text

/-- Lower case of the ASCII letters; all other characters stay. -/
def foldCase (s : List Char) : List Char := s.map Char.toLower

theorem foldCase_append (s t : List Char) : foldCase (s ++ t) = foldCase s ++ foldCase t :=
  List.map_append

def sameName (a b : String) : Bool := foldCase a.toList == foldCase b.toList

@[simp] theorem sameName_iff {a b : String} :
    sameName a b = true ↔ foldCase a.toList = foldCase b.toList := by
  simp [sameName]

theorem sameName_refl (a : String) : sameName a a = true := by simp

theorem sameName_symm {a b : String} (h : sameName a b = true) : sameName b a = true := by
  simp only [sameName_iff] at h ⊢
  exact h.symm

theorem sameName_trans {a b c : String} (h : sameName a b = true) (k : sameName b c = true) :
    sameName a c = true := by
  simp only [sameName_iff] at h k ⊢
  exact h.trans k

end MetricSql.Text
