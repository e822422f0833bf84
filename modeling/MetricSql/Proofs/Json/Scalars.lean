import Mathlib.Algebra.Group.Int.Defs
import MetricSql.Json.Decode
import MetricSql.Json.Printer
import MetricSql.Json.Reader
import MetricSql.Proofs.Text.Digits
import MetricSql.Proofs.Text.Runs

namespace MetricSql.Json

variable {c e : Char} {s rest : List Char} {n : Nat} {us : List StringUnit}

theorem hexNumber?_hexDigits (h : n < 0x20) :
    ∃ x y z w, hexDigits n = [x, y, z, w] ∧ hexNumber? [x, y, z, w] = some n := by
  have hall : ∀ n < 0x20, (hexDigits n).length = 4 ∧ hexNumber? (hexDigits n) = some n := by
    decide
  obtain ⟨hlength, hvalue⟩ := hall n h
  match hdigits : hexDigits n with
  | [x, y, z, w] => exact ⟨x, y, z, w, rfl, hdigits ▸ hvalue⟩
  | [] | [_] | [_, _] | [_, _, _] | _ :: _ :: _ :: _ :: _ :: _ => simp [hdigits] at hlength

theorem readUnits_simple (hc : c ≠ 'u') (he : simpleEscape? c = some e) (s : List Char) :
    readUnits ('\\' :: c :: s) = (readUnits s).map fun p => (.char e :: p.1, p.2) := by
  rw [readUnits]
  · rw [he]
    cases readUnits s <;> rfl
  · exact fun _ _ _ _ _ h => absurd h hc

theorem readUnits_hex {x y z w : Char} (h : hexNumber? [x, y, z, w] = some n) (s : List Char) :
    readUnits ('\\' :: 'u' :: x :: y :: z :: w :: s) =
      (readUnits s).map fun p => (.escaped n :: p.1, p.2) := by
  rw [readUnits, h]
  cases readUnits s <;> rfl

theorem readUnits_plain (hquote : c ≠ '"') (hslash : c ≠ '\\') (hc : ¬c.toNat < 0x20)
    (s : List Char) : readUnits (c :: s) = (readUnits s).map fun p => (.char c :: p.1, p.2) := by
  rw [readUnits]
  · rw [if_neg (not_or.2 ⟨hc, hslash⟩)]
    cases readUnits s <;> rfl
  all_goals simp [hquote, hslash]

def unitOf (c : Char) : StringUnit :=
  if c.toNat < 0x20 ∧ c ∉ ['\n', '\t', '\r', '\x08', '\x0c'] then .escaped c.toNat else .char c

theorem readUnits_escape (c : Char) (s : List Char) :
    readUnits (escape c ++ s) = (readUnits s).map fun p => (unitOf c :: p.1, p.2) := by
  unfold escape
  iterate 7
    split
    · next h =>
      subst h
      exact readUnits_simple (by decide) rfl s
  split
  · next hn ht hr hb hf hc =>
    obtain ⟨x, y, z, w, hdigits, hvalue⟩ := hexNumber?_hexDigits hc
    have hunit : unitOf c = .escaped c.toNat := by simp [unitOf, hc, hn, ht, hr, hb, hf]
    rw [hdigits, hunit]
    exact readUnits_hex hvalue s
  · next hquote hslash _ _ _ _ _ hc =>
    have hunit : unitOf c = .char c := by simp [unitOf, hc]
    rw [hunit]
    exact readUnits_plain hquote hslash hc s

theorem readUnits_flatMap_escape (s rest : List Char) :
    readUnits (s.flatMap escape ++ '"' :: rest) = some (s.map unitOf, rest) := by
  induction s with
  | nil => rfl
  | cons c s ih =>
    rw [List.flatMap_cons, List.append_assoc, readUnits_escape, ih]
    rfl

theorem joinUnits_escaped (hn : n < 0x20) (us : List StringUnit) :
    joinUnits (.escaped n :: us) = (joinUnits us).map (Char.ofNat n :: ·) := by
  have hhigh : isHighSurrogate n = false := by simp [isHighSurrogate]; omega
  have hlow : isLowSurrogate n = false := by simp [isLowSurrogate]; omega
  cases us with
  | nil => simp [joinUnits, hhigh, hlow]
  | cons u us =>
    cases u with
    | char c => simp [joinUnits, hhigh, hlow]
    | escaped l => simp [joinUnits, hhigh, hlow]

theorem joinUnits_map_unitOf (s : List Char) : joinUnits (s.map unitOf) = some s := by
  induction s with
  | nil => rfl
  | cons c s ih =>
    rw [List.map_cons, unitOf]
    split
    · next hc => rw [joinUnits_escaped hc.1, ih, Option.map_some, Char.ofNat_toNat]
    · rw [joinUnits, ih, Option.map_some]

theorem readString_escaped (s : String) (rest : List Char) :
    readString (s.toList.flatMap escape ++ '"' :: rest) = some (some s, rest) := by
  rw [readString, readUnits_flatMap_escape, Option.map_some, joinUnits_map_unitOf, Option.map_some,
    String.ofList_toList]

def AllDigits (s : List Char) : Prop := ∀ c ∈ s, c.isDigit = true

theorem allDigits_toDigits (n : Nat) : AllDigits (Nat.toDigits 10 n) := fun _ =>
  Text.isDigit_of_mem_toDigits

def Ends (rest : List Char) : Prop := ∀ c ∈ rest.head?, c = ',' ∨ c = ']' ∨ c = '}'

def integerLexeme (n : Int) : Lexeme := ⟨decide (n < 0), Nat.toDigits 10 n.natAbs, [], none⟩

theorem takeDigits_of_allDigits (hs : AllDigits s) (hrest : ∀ c ∈ rest.head?, c.isDigit = false) :
    takeDigits (s ++ rest) = (s, rest) := by
  obtain ⟨htake, hdrop⟩ := Text.takeWhile_run hs hrest
  rw [takeDigits, htake, hdrop]

theorem takeDigits_append (h : Ends rest) (n : Nat) :
    takeDigits (Nat.toDigits 10 n ++ rest) = (Nat.toDigits 10 n, rest) := by
  refine takeDigits_of_allDigits (allDigits_toDigits n) fun c hc => ?_
  obtain rfl | rfl | rfl := h c hc <;> rfl

theorem readSign_digits (n : Nat) (rest : List Char) :
    readSign (Nat.toDigits 10 n ++ rest) = (false, Nat.toDigits 10 n ++ rest) := by
  cases hdigits : Nat.toDigits 10 n with
  | nil => exact absurd hdigits Nat.toDigits_ne_nil
  | cons c r =>
    have hc : c.isDigit = true :=
      Text.isDigit_of_mem_toDigits (hdigits ▸ List.mem_cons_self)
    rw [List.cons_append, readSign]
    intro _ h
    rw [(List.cons.inj h).1] at hc
    cases hc

theorem readFraction_ends (h : Ends rest) : readFraction rest = some ([], rest) := by
  cases rest with
  | nil => rfl
  | cons c rest => obtain rfl | rfl | rfl := h c rfl <;> rfl

theorem readExponent_ends (h : Ends rest) : readExponent rest = some (none, rest) := by
  cases rest with
  | nil => rfl
  | cons c rest => obtain rfl | rfl | rfl := h c rfl <;> rfl

theorem readNumber_intChars (n : Int) (h : Ends rest) :
    readNumber (intChars n ++ rest) = some (integerLexeme n, rest) := by
  have hsign : readSign (intChars n ++ rest) =
      (decide (n < 0), Nat.toDigits 10 n.natAbs ++ rest) := by
    unfold intChars
    split
    · next hn => simp [hn, readSign]
    · next hn => rw [readSign_digits]; simp [hn]
  have hlead : ((Nat.toDigits 10 n.natAbs).isEmpty || ((Nat.toDigits 10 n.natAbs).head? == some '0' &&
      (Nat.toDigits 10 n.natAbs).length != 1)) = false := by
    obtain hn | hn := Nat.eq_zero_or_pos n.natAbs
    · rw [hn]
      rfl
    · have hhead := Text.toDigits_head_ne_zero hn
      have hne : (Nat.toDigits 10 n.natAbs).isEmpty = false := by simp
      simp [hhead, hne]
  simp only [readNumber, hsign, takeDigits_append h, hlead, Bool.false_eq_true, if_false,
    readFraction_ends h, Option.bind_eq_bind, Option.bind_some, readExponent_ends h]
  rfl

theorem integerLexeme_number? {n : Int} (hlow : -2 ^ 63 ≤ n) (hhigh : n < 2 ^ 64) :
    (integerLexeme n).number? = some (.integer n) := by
  have hvalue : Nat.ofDigitChars 10 (integerLexeme n).whole 0 = n.natAbs :=
    Nat.ofDigitChars_ten_toDigits
  have hinteger : (integerLexeme n).isInteger = true := rfl
  have hlimit : Lexeme.significandLimit = 2 ^ 64 - 1 := rfl
  have hleast : Nat.pow 2 63 = 2 ^ 63 := rfl
  have hsign : (integerLexeme n).negative = decide (n < 0) := rfl
  simp only [Lexeme.number?, hvalue, hinteger, hlimit, hleast, hsign, Bool.true_and]
  generalize hm : n.natAbs = m
  by_cases hn : n < 0
  · have hne : m ≠ 0 := by omega
    have hle : m ≤ 2 ^ 63 := by omega
    have hneg : -(m : Int) = n := by omega
    rw [decide_eq_true hn, decide_eq_true hne, decide_eq_true hle, hneg]
    rfl
  · have hle : m ≤ 2 ^ 64 - 1 := by omega
    have hpos : (m : Int) = n := by omega
    rw [decide_eq_false hn, decide_eq_true hle, hpos]
    rfl

end MetricSql.Json
