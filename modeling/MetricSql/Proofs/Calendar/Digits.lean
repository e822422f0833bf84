import Mathlib
import MetricSql.Calendar.Text
import MetricSql.Proofs.Text.Digits

namespace MetricSql.Date

open Text

def value (s : List Char) : Nat := Nat.ofDigitChars 10 s 0

theorem value_cons (c : Char) (s : List Char) :
    value (c :: s) = 10 ^ s.length * (c.toNat - 48) + value s := by
  rw [value, Nat.ofDigitChars_cons, Nat.ofDigitChars_eq_ofDigitChars_zero, Nat.mul_zero,
    Nat.zero_add]
  rfl

theorem toNat_digit {c : Char} (h : c.isDigit = true) : 48 ≤ c.toNat ∧ c.toNat ≤ 57 := by
  simp only [Char.isDigit, Bool.and_eq_true, decide_eq_true_eq] at h
  exact ⟨UInt32.le_iff_toNat_le.mp h.1, UInt32.le_iff_toNat_le.mp h.2⟩

theorem mul_add_lt {p a b x y : Nat} (h : a < b) (hx : x < p) : p * a + x < p * b + y := by
  have hle := Nat.mul_le_mul_left p (Nat.succ_le_of_lt h)
  rw [Nat.mul_succ] at hle
  omega

theorem value_lt {s : List Char} (h : ∀ c ∈ s, c.isDigit = true) : value s < 10 ^ s.length := by
  induction s with
  | nil => decide
  | cons c s ih =>
    have hc := toNat_digit (h c List.mem_cons_self)
    have hs := ih fun d hd => h d (List.mem_cons_of_mem _ hd)
    rw [value_cons, List.length_cons, Nat.pow_succ]
    have hlt : 10 ^ s.length * (c.toNat - 48) + value s < 10 ^ s.length * 10 + 0 :=
      mul_add_lt (by omega) hs
    omega

theorem append_lt_append_iff {s t u v : List Char} (hlen : s.length = t.length)
    (hs : ∀ c ∈ s, c.isDigit = true) (ht : ∀ c ∈ t, c.isDigit = true) :
    s ++ u < t ++ v ↔ value s < value t ∨ value s = value t ∧ u < v := by
  induction s generalizing t with
  | nil =>
    obtain rfl : t = [] := List.length_eq_zero_iff.mp hlen.symm
    simp
  | cons c s ih =>
    obtain _ | ⟨d, t⟩ := t
    · simp at hlen
    have hlen : s.length = t.length := by simpa using hlen
    have hc := toNat_digit (hs c List.mem_cons_self)
    have hd := toNat_digit (ht d List.mem_cons_self)
    have hs' := fun a ha => hs a (List.mem_cons_of_mem _ ha)
    have ht' := fun a ha => ht a (List.mem_cons_of_mem _ ha)
    have hvs := value_lt hs'
    have hvt := value_lt ht'
    rw [List.cons_append, List.cons_append, List.cons_lt_cons_iff, ih hlen hs' ht', value_cons,
      value_cons, hlen]
    rw [hlen] at hvs
    obtain h | h | h := Nat.lt_trichotomy c.toNat d.toNat
    · have hcd : c < d := h
      simp only [hcd, true_or, true_iff]
      exact Or.inl (mul_add_lt (by omega) hvs)
    · obtain rfl : c = d := Char.toNat_inj.mp h
      simp
    · have hcd : ¬c < d := Nat.lt_asymm h
      have hne : c ≠ d := fun k => Nat.ne_of_gt h (congrArg Char.toNat k)
      have hlt : 10 ^ t.length * (d.toNat - 48) + value t <
          10 ^ t.length * (c.toNat - 48) + value s := mul_add_lt (by omega) hvt
      simp only [hcd, hne, false_and, or_self, false_iff]
      omega

theorem isDigit_padded {width n : Nat} {c : Char} (h : c ∈ padded width n) : c.isDigit = true := by
  obtain h | h := List.mem_append.mp h
  · rw [List.eq_of_mem_replicate h]
    rfl
  · exact isDigit_of_mem_toDigits h

theorem value_padded (width n : Nat) : value (padded width n) = n := by
  rw [value, padded, List.leftpad, Nat.ofDigitChars_append, Nat.ofDigitChars_replicate_zero,
    Nat.mul_zero, Nat.ofDigitChars_ten_toDigits]

theorem length_padded {width n : Nat} (hw : 0 < width) (h : n < 10 ^ width) :
    (padded width n).length = width := by
  have hlen := (Nat.length_toDigits_le_iff (b := 10) (by decide) hw).mpr h
  rw [padded, List.leftpad, List.length_append, List.length_replicate]
  omega

theorem padded_ne_nil (width n : Nat) : padded width n ≠ [] := by
  simp [padded, List.leftpad, Nat.toDigits_ne_nil]

theorem readDigits_append {limit : Nat} {s r : List Char} (hs : ∀ c ∈ s, c.isDigit = true)
    (hne : s ≠ []) (hlen : s.length ≤ limit) (hr : ∀ c ∈ r.head?, c.isDigit = false) :
    readDigits limit (s ++ r) = some (value s, r) := by
  have hdigits : ((s ++ r).take limit).takeWhile Char.isDigit = s := by
    rw [List.take_append, List.take_of_length_le hlen, List.takeWhile_append_of_pos hs]
    have htail : (r.take (limit - s.length)).takeWhile Char.isDigit = [] := by
      cases r with
      | nil => simp
      | cons c r =>
        cases limit - s.length with
        | zero => simp
        | succ k => simp [hr c rfl]
    rw [htail, List.append_nil]
  have hempty : s.isEmpty = false := by simpa using hne
  simp only [readDigits, hdigits, hempty, Bool.false_eq_true, if_false, List.drop_left, value]

theorem readDigits_padded {width n limit : Nat} {r : List Char} (hw : 0 < width)
    (hn : n < 10 ^ width) (hlimit : width ≤ limit) (hr : ∀ c ∈ r.head?, c.isDigit = false) :
    readDigits limit (padded width n ++ r) = some (n, r) := by
  have hlen := length_padded hw hn
  rw [readDigits_append (fun _ => isDigit_padded) (padded_ne_nil _ _) (by omega) hr, value_padded]

end MetricSql.Date
