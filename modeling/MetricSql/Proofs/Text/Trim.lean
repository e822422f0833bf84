import Mathlib
import MetricSql.Text.Blank

namespace MetricSql.Text

variable {s w z : List Char}

theorem trimStart_eq_self (h : ∀ c ∈ s.head?, isBlank c = false) : trimStart s = s := by
  cases s with
  | nil => rfl
  | cons c s => simp [trimStart, h c rfl]

theorem trimEnd_eq_self (h : ∀ c ∈ s.getLast?, isBlank c = false) : trimEnd s = s := by
  have hr : trimStart s.reverse = s.reverse :=
    trimStart_eq_self fun c hc => h c (by rwa [List.head?_reverse] at hc)
  rw [trimEnd, ← trimStart, hr, List.reverse_reverse]

theorem trim_eq_self (hs : ∀ c ∈ s.head?, isBlank c = false)
    (he : ∀ c ∈ s.getLast?, isBlank c = false) : trim s = s := by
  rw [trim, trimStart_eq_self hs, trimEnd_eq_self he]

theorem trim_of_forall (h : ∀ c ∈ s, isBlank c = false) : trim s = s :=
  trim_eq_self (fun c hc => h c (List.mem_of_mem_head? hc)) fun c hc => h c (List.mem_of_getLast? hc)

theorem trimStart_append (hw : ∀ c ∈ w, isBlank c = true) : trimStart (w ++ s) = trimStart s :=
  List.dropWhile_append_of_pos hw

theorem trimEnd_append (hz : ∀ c ∈ z, isBlank c = true) : trimEnd (s ++ z) = trimEnd s := by
  have hz' : ∀ c ∈ z.reverse, isBlank c = true := fun c hc => hz c (List.mem_reverse.mp hc)
  rw [trimEnd, List.reverse_append, List.dropWhile_append_of_pos hz', trimEnd]

theorem trim_surrounded (hw : ∀ c ∈ w, isBlank c = true) (hz : ∀ c ∈ z, isBlank c = true) :
    trim (w ++ s ++ z) = trim s := by
  have hstart : trimStart (w ++ s ++ z) = trimStart (s ++ z) := by
    rw [List.append_assoc, trimStart_append hw]
  rw [trim, hstart, trim, trimStart, List.dropWhile_append]
  split
  · next hs =>
    have hnil : s.dropWhile isBlank = [] := List.isEmpty_iff.mp hs
    have hblank : z.dropWhile isBlank = [] := List.dropWhile_eq_nil_iff.mpr hz
    rw [trimStart, hnil, hblank]
  · exact trimEnd_append hz

theorem isBlank_of_isAlphanum {c : Char} (h : c.isAlphanum = true) : isBlank c = false := by
  have hc : 48 ≤ c.toNat ∧ c.toNat ≤ 122 := by
    simp only [Char.isAlphanum, Char.isAlpha, Char.isUpper, Char.isLower, Char.isDigit,
      Bool.or_eq_true, Bool.and_eq_true, decide_eq_true_eq, ge_iff_le, UInt32.le_iff_toNat_le] at h
    change (65 ≤ c.toNat ∧ c.toNat ≤ 90 ∨ 97 ≤ c.toNat ∧ c.toNat ≤ 122) ∨
      48 ≤ c.toNat ∧ c.toNat ≤ 57 at h
    omega
  simp only [isBlank, blankRanges, List.any_cons, List.any_nil, Bool.or_false, Bool.or_eq_false_iff,
    Bool.and_eq_false_iff, decide_eq_false_iff_not]
  omega

theorem isBlank_of_isDigit {c : Char} (h : c.isDigit = true) : isBlank c = false :=
  isBlank_of_isAlphanum (by simp [Char.isAlphanum, h])

end MetricSql.Text
