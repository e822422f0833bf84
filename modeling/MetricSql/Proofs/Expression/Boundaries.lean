import MetricSql.Proofs.Expression.Replacement

namespace MetricSql.Expr

open Text Arithmetic

/-- Which characters are letters and digits. Among the ASCII characters these are fixed. -/
structure Alphabet where
  contains : Char → Prop
  ascii : ∀ c, c.toNat < 128 → (contains c ↔ c.isAlphanum = true)

def Alphabet.InNames (A : Alphabet) (c : Char) : Prop := A.contains c ∨ c = '_'

def Borders (before after : List Token) (c : Char) : Prop :=
  c ∈ (before.flatMap Token.text).getLast? ∨ c ∈ (after.flatMap Token.text).head?

structure ReplacesAt (sub : String → Option String) (expr : String) (before : List Token)
    (w : List Char) (after : List Token) : Prop where
  splits : Splits expr.toList (before ++ .word w :: after)
  refers : RefersTo (.word w) after (String.ofList w)
  found : (sub (String.ofList w)).isSome

/-- No bare name that is replaced is part of a larger name. -/
def ReplacesWholeNames (A : Alphabet) (sub : String → Option String) (expr : String) : Prop :=
  ∀ before w after, ReplacesAt sub expr before w after → ∀ c, Borders before after c → ¬A.InNames c

variable {A : Alphabet} {sub : String → Option String} {expr : String} {c : Char} {s w : List Char}
  {t : Token} {before after ts : List Token}

theorem isWordChar_of_ascii (h : c.isAlphanum = true ∨ c = '_') : isWordChar c = true := by
  obtain h | rfl := h
  · simp [isWordChar, h]
  · rfl

theorem Splits.stands (h : Splits s (before ++ t :: after)) :
    t.Stands (after.flatMap Token.text) := by
  induction before generalizing s with
  | nil =>
    cases h with
    | cons ht hafter => rwa [hafter.flatMap_text]
  | cons u before ih =>
    cases h with
    | cons _ hrest => exact ih hrest

theorem Token.Stands.not_name_of_last (h : t.Stands (c :: s)) (hc : isWordStart c = true) :
    ∀ a ∈ t.text.getLast?, ¬(a.isAlphanum = true ∨ a = '_') := by
  have hclash (hnext : ∀ a ∈ (c :: s).head?, isWordChar a = false) : False := by
    have hword := hnext c rfl
    rw [isWordChar_of_isWordStart hc] at hword
    cases hword
  intro a ha
  cases h with
  | literal hq _ _ =>
    rw [text, ← List.cons_append, List.getLast?_concat, Option.mem_some_iff] at ha
    obtain rfl := ha
    obtain rfl | rfl := hq <;> decide
  | quoted _ =>
    simp only [text, if_true, ← List.cons_append, List.getLast?_concat, Option.mem_some_iff] at ha
    obtain rfl := ha
    decide
  | number _ _ hnext => exact (hclash hnext).elim
  | word _ _ hnext => exact (hclash hnext).elim
  | @other b _ hb =>
    obtain rfl : b = a := by simpa [text] using ha
    simp only [standsAlone, isWordStart, Bool.not_eq_true', Bool.or_eq_false_iff,
      beq_eq_false_iff_ne] at hb
    simp [Char.isAlphanum, hb]

/-- The ASCII characters beside a bare name are neither letters nor digits nor underscores: a name is
scanned as far as it goes, and it does not start within another token. -/
theorem Splits.not_ascii_of_borders (h : Splits s (before ++ .word w :: after))
    (hc : Borders before after c) : ¬(c.isAlphanum = true ∨ c = '_') := by
  have hword := h.stands
  cases hword with
  | @word b v _ hb _ hnext =>
    obtain hc | hc := hc
    · obtain rfl | ⟨init, u, rfl⟩ := List.eq_nil_or_concat before
      · cases hc
      · rw [List.concat_eq_append, List.append_assoc, List.singleton_append] at h
        have hu := h.stands
        rw [List.concat_eq_append, List.flatMap_append, List.flatMap_singleton,
          List.getLast?_append_of_ne_nil _ hu.text_ne_nil] at hc
        exact hu.not_name_of_last hb c hc
    · intro hname
      have hnot := hnext c hc
      rw [isWordChar_of_ascii hname] at hnot
      cases hnot

theorem Splits.mem_of_borders (h : Splits s (before ++ t :: after)) (hc : Borders before after c) :
    c ∈ s := by
  rw [← h.flatMap_text, List.flatMap_append, List.flatMap_cons, List.mem_append, List.mem_append]
  obtain hc | hc := hc
  · exact .inl (List.mem_of_getLast? hc)
  · exact .inr (.inr (List.mem_of_head? hc))

/-- Rewriting replaces tokens, and the names among these are whole names exactly when no letter or
digit outside ASCII stands beside a bare one. In ASCII expressions they always are. -/
theorem replacesWholeNames_iff (A : Alphabet) (sub : String → Option String) (expr : String) :
    (∃ texts, Replaced sub (scan expr.toList) texts ∧ (rewrite sub expr).toList = texts.flatten) ∧
    (ReplacesWholeNames A sub expr ↔
      ∀ before w after, ReplacesAt sub expr before w after →
        ∀ c, Borders before after c → 128 ≤ c.toNat → ¬A.contains c) ∧
    ((∀ c ∈ expr.toList, c.toNat < 128) → ReplacesWholeNames A sub expr) := by
  have hiff : ReplacesWholeNames A sub expr ↔
      ∀ before w after, ReplacesAt sub expr before w after →
        ∀ c, Borders before after c → 128 ≤ c.toNat → ¬A.contains c := by
    constructor
    · intro h before w after hat c hc _ hcontains
      exact h before w after hat c hc (.inl hcontains)
    · intro h before w after hat c hc hname
      have hascii := hat.splits.not_ascii_of_borders hc
      by_cases hlt : c.toNat < 128
      · exact hascii (hname.imp_left (A.ascii c hlt).1)
      · obtain hcontains | rfl := hname
        · exact h before w after hat c hc (Nat.le_of_not_lt hlt) hcontains
        · exact hascii (.inr rfl)
  have hsplit := splits_scan expr.toList
  refine ⟨⟨_, hsplit.replaced sub true, toList_rewrite sub expr⟩, hiff, fun hall => hiff.2 ?_⟩
  intro before w after hat c hc hforeign
  exact absurd (hall c (hat.splits.mem_of_borders hc)) (Nat.not_lt.2 hforeign)

theorem replacesAt_of_scan (hscan : scan expr.toList = before ++ .word w :: after)
    (href : reference? (.word w) after = some (String.ofList w))
    (hsub : (sub (String.ofList w)).isSome) : ReplacesAt sub expr before w after := by
  have hsplit := splits_scan expr.toList
  rw [hscan] at hsplit
  exact ⟨hsplit, hsplit.after.reference?_eq_some.1 href, hsub⟩

def accented : Alphabet where
  contains c := c.isAlphanum = true ∨ c = 'é' ∨ c = '\u0663'
  ascii c hc := by
    refine or_iff_left ?_
    rintro (rfl | rfl) <;> exact absurd hc (by decide)

/-- The scanner sees letters and digits outside ASCII as delimiters, in front of a name and behind
it. -/
theorem replaced_inside_larger_name :
    (¬ReplacesWholeNames accented (fun n => if n = "num" then some "x" else none) "num / numéro(1)" ∧
      rewrite (fun n => if n = "num" then some "x" else none) "num / numéro(1)" = "x / xéro(1)") ∧
    (¬ReplacesWholeNames accented (fun n => if n = "n" then some "x" else none) "n * \u0663n" ∧
      rewrite (fun n => if n = "n" then some "x" else none) "n * \u0663n" = "x * \u0663x") := by
  constructor
  · have hat : ReplacesAt (fun n => if n = "num" then some "x" else none) "num / numéro(1)"
        [.word "num".toList, .other ' ', .other '/', .other ' '] "num".toList
        [.other 'é', .word "ro".toList, .other '(', .number ['1'], .other ')'] :=
      replacesAt_of_scan (by cbv) (by cbv) (by cbv)
    refine ⟨fun h => ?_, by cbv⟩
    exact h _ _ _ hat 'é' (.inr rfl) (.inl (.inr (.inl rfl)))
  · have hat : ReplacesAt (fun n => if n = "n" then some "x" else none) "n * \u0663n"
        [.word ['n'], .other ' ', .other '*', .other ' ', .other '\u0663'] ['n'] [] :=
      replacesAt_of_scan (by cbv) (by cbv) (by cbv)
    refine ⟨fun h => ?_, by cbv⟩
    exact h _ _ _ hat '\u0663' (.inl rfl) (.inl (.inr (.inr rfl)))

end MetricSql.Expr
