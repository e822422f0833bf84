import MetricSql.Proofs.Json.Scalars

namespace MetricSql

namespace Json

variable {s t : List Char}

theorem allDigits_append : AllDigits (s ++ t) ↔ AllDigits s ∧ AllDigits t := List.forall_mem_append

theorem AllDigits.sublist (ht : AllDigits t) (h : s.Sublist t) : AllDigits s := fun c hc =>
  ht c (h.subset hc)

theorem allDigits_zeros (n : Nat) : AllDigits (Binary.zeros n) := fun c hc => by
  rw [List.eq_of_mem_replicate hc]
  rfl

end Json

namespace Json.Lexeme

/-- A number whose parts are digits, with no zero in front of others. -/
structure WellFormed (l : Lexeme) : Prop where
  whole : AllDigits l.whole
  fraction : AllDigits l.fraction
  exponent : ∀ e ∈ l.exponent, AllDigits e.2 ∧ e.2 ≠ []
  nonempty : l.whole ≠ []
  start : l.whole.head? = some '0' → l.whole.length = 1

def fractionText (l : Lexeme) : List Char :=
  if l.fraction.isEmpty then [] else '.' :: l.fraction

def exponentText (l : Lexeme) : List Char :=
  match l.exponent with
  | some (negative, digits) => 'e' :: (if negative then '-' else '+') :: digits
  | none => []

def text (l : Lexeme) : List Char :=
  (if l.negative then ['-'] else []) ++ (l.whole ++ (l.fractionText ++ l.exponentText))

variable {l : Lexeme}

theorem readExponent_text (h : ∀ e ∈ l.exponent, AllDigits e.2 ∧ e.2 ≠ []) :
    readExponent l.exponentText = some (l.exponent, []) := by
  unfold exponentText
  cases he : l.exponent with
  | none => rfl
  | some e =>
    obtain ⟨negative, digits⟩ := e
    obtain ⟨hdigits, hne⟩ : AllDigits digits ∧ digits ≠ [] := h _ he
    have htake : takeDigits (digits ++ []) = (digits, []) :=
      takeDigits_of_allDigits hdigits (by simp)
    rw [List.append_nil] at htake
    cases negative
    all_goals simp [readExponent, readSign, htake, hne]

theorem head_exponentText (l : Lexeme) : ∀ c ∈ l.exponentText.head?, c.isDigit = false := by
  unfold exponentText
  split
  · rintro c ⟨⟩
    rfl
  · simp

theorem readFraction_text (h : AllDigits l.fraction) :
    readFraction (l.fractionText ++ l.exponentText) = some (l.fraction, l.exponentText) := by
  unfold fractionText
  split
  · next hempty =>
    rw [List.isEmpty_iff.1 hempty, List.nil_append, readFraction]
    unfold exponentText
    split <;> simp
  · next hempty =>
    simp only [List.cons_append, readFraction, takeDigits_of_allDigits h l.head_exponentText]
    simp [hempty]

theorem head_fractionText (l : Lexeme) :
    ∀ c ∈ (l.fractionText ++ l.exponentText).head?, c.isDigit = false := by
  unfold fractionText
  split
  · exact l.head_exponentText
  · rintro c ⟨⟩
    rfl

theorem readSign_text (h : l.WellFormed) :
    readSign l.text = (l.negative, l.whole ++ (l.fractionText ++ l.exponentText)) := by
  unfold text
  cases l.negative with
  | true => rfl
  | false =>
    obtain ⟨c, s, hwhole⟩ := List.exists_cons_of_ne_nil h.nonempty
    have hc := h.whole c (hwhole ▸ List.mem_cons_self)
    rw [hwhole, if_neg Bool.false_ne_true, List.nil_append, List.cons_append, readSign]
    rintro r ⟨⟩
    cases hc

theorem WellFormed.readNumber_text (h : l.WellFormed) : readNumber l.text = some (l, []) := by
  have hstart : (l.whole.isEmpty || (l.whole.head? == some '0' && l.whole.length != 1)) = false := by
    have hstart := h.start
    have hne := h.nonempty
    grind
  simp only [readNumber, readSign_text h, takeDigits_of_allDigits h.whole l.head_fractionText,
    hstart, readFraction_text h.fraction, readExponent_text h.exponent, Option.bind_eq_bind,
    Option.bind_some, Bool.false_eq_true, if_false, Option.pure_def]

end Json.Lexeme

namespace Binary

open Json

variable {b : Binary} {s whole fraction : List Char} {lead : Int}

theorem reads_zero (hb : 0 < b.mantissa) (e : Int) : b.reads 0 e = false := by
  have hlower : 0 < b.lowerQuarters := by
    unfold lowerQuarters
    split <;> omega
  have hunit : 0 < Nat.pow 10 (-e).toNat * Nat.pow 2 b.exponent.toNat :=
    Nat.mul_pos (Nat.pow_pos (by decide)) (Nat.pow_pos (by decide))
  have hpos := Nat.mul_pos hlower hunit
  simp only [reads, Nat.mul_zero, Nat.zero_mul]
  split
  · simp only [Bool.and_eq_false_iff, decide_eq_false_iff_not]
    omega
  · simp only [Bool.and_eq_false_iff, decide_eq_false_iff_not]
    omega

theorem neighbour?_pos (hb : 0 < b.mantissa) {e : Int} {c : Nat} (h : b.neighbour? e = some c) :
    0 < c := by
  have hpos {n : Nat} (hn : b.reads n e = true) : 0 < n := by
    refine Nat.pos_of_ne_zero fun hzero => ?_
    rw [hzero, reads_zero hb] at hn
    cases hn
  have hround (n d : Nat) : n / d ≤ roundDiv n d := by
    simp only [roundDiv]
    split
    · exact Nat.le_refl _
    · split
      · exact Nat.le_succ _
      · exact Nat.le_add_right ..
  simp only [neighbour?] at h
  split at h
  · next hc _ =>
    rw [← Option.some.inj h]
    exact Nat.lt_of_lt_of_le (hpos hc) (hround _ _)
  · next hc _ =>
    rw [← Option.some.inj h]
    exact hpos hc
  · rw [← Option.some.inj h]
    exact Nat.succ_pos _
  · cases h

theorem firstNeighbour_pos (hb : 0 < b.mantissa) (e : Int) (k : Nat) :
    0 < (b.firstNeighbour e k).digits := by
  induction k generalizing e with
  | zero => exact Nat.mul_pos hb (Nat.pow_pos (by decide))
  | succ k ih =>
    rw [firstNeighbour]
    split
    · next h => exact neighbour?_pos hb h
    · exact ih _

theorem dropZeros_prefix (s : List Char) : dropZeros s <+: s := by
  rw [← List.reverse_suffix, dropZeros, List.reverse_reverse]
  exact List.dropWhile_suffix _

theorem dropZeros_ne_nil (hs : s ≠ []) (hstart : s.head? ≠ some '0') : dropZeros s ≠ [] := by
  intro h
  obtain ⟨c, t, rfl⟩ := List.exists_cons_of_ne_nil hs
  rw [dropZeros, List.reverse_eq_nil_iff, List.dropWhile_eq_nil_iff] at h
  exact hstart (congrArg some (by simpa using h c (by simp)))

structure Significant (s : List Char) : Prop where
  digits : AllDigits s
  nonempty : s ≠ []
  start : s.head? ≠ some '0'

theorem significant_dropZeros {n : Nat} (hn : 0 < n) :
    Significant (dropZeros (Nat.toDigits 10 n)) := by
  have hstart := Text.toDigits_head_ne_zero hn
  have hne := dropZeros_ne_nil Nat.toDigits_ne_nil hstart
  have hprefix := dropZeros_prefix (Nat.toDigits 10 n)
  refine ⟨(allDigits_toDigits n).sublist hprefix.sublist, hne, fun h => hstart ?_⟩
  obtain ⟨t, ht⟩ := hprefix
  rw [← ht, List.head?_append, h, Option.some_or]

/-- The text is that of a well-formed number when its sign is put in front. -/
def IsMagnitude (s : List Char) : Prop :=
  ∃ l : Lexeme, l.WellFormed ∧ l.negative = false ∧ l.text = s

theorem isMagnitude_pointed (hwhole : AllDigits whole) (hne : whole ≠ [])
    (hstart : whole.head? = some '0' → whole.length = 1) (hfraction : AllDigits fraction) :
    IsMagnitude (pointed whole fraction) := by
  obtain ⟨places, hplaces, hdigits, hnonempty⟩ : ∃ places,
      pointed whole fraction = whole ++ '.' :: places ∧ AllDigits places ∧ places ≠ [] := by
    refine ⟨_, rfl, ?_⟩
    split
    · simp [AllDigits]
    · next h => exact ⟨hfraction, by simpa using h⟩
  refine ⟨⟨false, whole, places, none⟩, ⟨hwhole, hdigits, by simp, hne, hstart⟩, rfl, ?_⟩
  simp [Lexeme.text, Lexeme.fractionText, Lexeme.exponentText, hplaces, hnonempty]

theorem isMagnitude_positional (hs : Significant s) (lead : Int) :
    IsMagnitude (positional s lead) := by
  have hsub {t : List Char} (h : t.Sublist s) : AllDigits t := hs.digits.sublist h
  unfold positional
  split
  · exact isMagnitude_pointed (by simp [AllDigits]) (by simp) (by simp)
      (allDigits_append.2 ⟨allDigits_zeros _, hs.digits⟩)
  · obtain ⟨c, t, hct⟩ := List.exists_cons_of_ne_nil hs.nonempty
    have hc : c ≠ '0' := fun h => hs.start (by rw [hct, h]; rfl)
    refine isMagnitude_pointed
      (allDigits_append.2 ⟨hsub (List.take_sublist ..), allDigits_zeros _⟩) ?_ ?_
      (hsub (List.drop_sublist ..))
    · simp [hct]
    · simp [hct, hc]

theorem isMagnitude_scientific (hs : Significant s) (lead : Int) :
    IsMagnitude (scientific s lead) := by
  obtain ⟨c, t, rfl⟩ := List.exists_cons_of_ne_nil hs.nonempty
  have hsub {u : List Char} (h : u.Sublist (c :: t)) : AllDigits u := hs.digits.sublist h
  refine ⟨⟨false, [c], t, some (decide (lead < 0), Nat.toDigits 10 lead.natAbs)⟩,
    ⟨hsub (by simp), hsub (by simp), ?_, by simp, by simp⟩, rfl, ?_⟩
  · rintro e ⟨⟩
    exact ⟨allDigits_toDigits _, Nat.toDigits_ne_nil⟩
  · simp [Lexeme.text, Lexeme.fractionText, Lexeme.exponentText, scientific]

theorem isMagnitude_chars (layout : Layout) (b : Binary) : IsMagnitude (b.chars layout) := by
  unfold chars
  split
  · exact isMagnitude_pointed (by simp [AllDigits]) (by simp) (by simp) (by simp [AllDigits])
  · next hb =>
    have hmantissa : 0 < b.mantissa := Nat.pos_of_ne_zero (by simpa [isZero] using hb)
    have hs := significant_dropZeros (firstNeighbour_pos hmantissa
      (leadingExponent b.ratio.1 b.ratio.2) 17)
    dsimp only
    split
    · exact isMagnitude_positional hs _
    · exact isMagnitude_scientific hs _

end Binary

namespace Json

def isNumber (s : List Char) : Bool := (readNumber s).any (·.2.isEmpty)

theorem wellFormed_integerLexeme (n : Int) : (integerLexeme n).WellFormed where
  whole := allDigits_toDigits _
  fraction := nofun
  exponent := nofun
  nonempty := Nat.toDigits_ne_nil
  start h := by
    obtain hn | hn := Nat.eq_zero_or_pos n.natAbs
    · rw [integerLexeme, hn]
      rfl
    · exact absurd h (Text.toDigits_head_ne_zero hn)

theorem text_integerLexeme (n : Int) : (integerLexeme n).text = intChars n := by
  rw [intChars]
  split
  · next hn => simp [Lexeme.text, integerLexeme, Lexeme.fractionText, Lexeme.exponentText, hn]
  · next hn => simp [Lexeme.text, integerLexeme, Lexeme.fractionText, Lexeme.exponentText, hn]

theorem Number.exists_lexeme (n : Number) : ∃ l : Lexeme, l.WellFormed ∧ l.text = n.chars := by
  cases n with
  | integer n => exact ⟨integerLexeme n, wellFormed_integerLexeme n, text_integerLexeme n⟩
  | real negative b =>
    obtain ⟨l, hl, hsign, htext⟩ := b.isMagnitude_chars {}
    refine ⟨{ l with negative := negative },
      ⟨hl.whole, hl.fraction, hl.exponent, hl.nonempty, hl.start⟩, ?_⟩
    rw [chars, ← htext, Lexeme.text, Lexeme.text, hsign]
    rfl

theorem Number.isNumber_chars (n : Number) : isNumber n.chars = true := by
  obtain ⟨l, hl, htext⟩ := n.exists_lexeme
  rw [isNumber, ← htext, hl.readNumber_text]
  rfl

def isNumberChar (c : Char) : Bool := c.isDigit || "+-.e".toList.contains c

theorem Lexeme.WellFormed.isNumberChar_of_mem {l : Lexeme} {c : Char} (h : l.WellFormed)
    (hc : c ∈ l.text) : isNumberChar c = true := by
  have hdigit {s : List Char} (hs : AllDigits s) (hc : c ∈ s) : isNumberChar c = true := by
    simp [isNumberChar, hs c hc]
  simp only [text, List.mem_append] at hc
  obtain hc | hc | hc | hc := hc
  · split at hc
    · obtain rfl := List.mem_singleton.mp hc
      decide
    · cases hc
  · exact hdigit h.whole hc
  · unfold fractionText at hc
    split at hc
    · cases hc
    · obtain rfl | hc := List.mem_cons.mp hc
      · decide
      · exact hdigit h.fraction hc
  · unfold exponentText at hc
    split at hc
    · next negative digits he =>
      obtain rfl | hc := List.mem_cons.mp hc
      · decide
      obtain rfl | hc := List.mem_cons.mp hc
      · split <;> decide
      · exact hdigit (h.exponent _ he).1 hc
    · cases hc

theorem Number.isNumberChar_of_mem (n : Number) {c : Char} (hc : c ∈ n.chars) :
    isNumberChar c = true := by
  obtain ⟨l, hl, htext⟩ := n.exists_lexeme
  exact hl.isNumberChar_of_mem (htext ▸ hc)

end Json

end MetricSql
