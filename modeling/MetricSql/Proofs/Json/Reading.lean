import MetricSql.Proofs.Json.Scalars

namespace MetricSql.Json

def Number.lexeme (n : Number) : Lexeme :=
  ((readNumber n.chars).map Prod.fst).getD ⟨false, [], [], none⟩

namespace Value

variable {v : Value} {f : String × Value} {items : List Value} {fields : List (String × Value)}
  {rest : List Char} {fuel : Nat}

theorem sizeOf_item_lt (h : v ∈ items) : sizeOf v < sizeOf (array items) := by
  have hlt := List.sizeOf_lt_of_mem h
  rw [array.sizeOf_spec]
  omega

theorem sizeOf_field_lt (h : f ∈ fields) : sizeOf f.2 < sizeOf (object fields) := by
  have hlt := List.sizeOf_lt_of_mem h
  rw [object.sizeOf_spec]
  rw [Prod.mk.sizeOf_spec] at hlt
  omega

def tree : Value → Tree
  | null => .null
  | bool b => .bool b
  | number n => .number n.lexeme
  | string s => .text (some s)
  | array items => .array (items.map tree)
  | object fields => .object (fields.map fun f => (some f.1, f.2.tree))
decreasing_by
  · exact sizeOf_item_lt ‹_›
  · exact sizeOf_field_lt ‹_›

/-- A value that its text keeps: numbers are integers of 64 bits, with or without a sign, and no
object has a key twice. -/
inductive Exact : Value → Prop
  | null : Exact .null
  | bool (b : Bool) : Exact (.bool b)
  | integer {n : Int} : -2 ^ 63 ≤ n → n < 2 ^ 64 → Exact (.number (.integer n))
  | string (s : String) : Exact (.string s)
  | array {items : List Value} : (∀ v ∈ items, Exact v) → Exact (.array items)
  | object {fields : List (String × Value)} : (fields.map Prod.fst).Nodup →
      (∀ f ∈ fields, Exact f.2) → Exact (.object fields)

theorem lexeme_integer (n : Int) : (Number.integer n).lexeme = integerLexeme n := by
  have h : readNumber (intChars n ++ []) = some (integerLexeme n, []) :=
    readNumber_intChars n (by simp [Ends])
  rw [List.append_nil] at h
  rw [Number.lexeme, Number.chars, h]
  rfl

theorem intChars_head (n : Int) : ∃ c r, intChars n = c :: r ∧ (c = '-' ∨ c.isDigit = true) := by
  unfold intChars
  split
  · exact ⟨_, _, rfl, .inl rfl⟩
  · cases hdigits : Nat.toDigits 10 n.natAbs with
    | nil => exact absurd hdigits Nat.toDigits_ne_nil
    | cons c r =>
      exact ⟨c, r, rfl, .inr
        (Text.isDigit_of_mem_toDigits (hdigits ▸ List.mem_cons_self))⟩

theorem ne_of_number {a c : Char} (hc : c = '-' ∨ c.isDigit = true)
    (ha : a ≠ '-' ∧ a.isDigit = false) : c ≠ a := by
  rintro rfl
  simp [ha] at hc

theorem readTree_number {c : Char} (hc : c = '-' ∨ c.isDigit = true) (r : List Char) :
    readTree (fuel + 1) (c :: r) = (readNumber (c :: r)).map fun p => (.number p.1, p.2) := by
  have hn : 'n' ≠ c := (ne_of_number hc (by decide)).symm
  have ht : 't' ≠ c := (ne_of_number hc (by decide)).symm
  have hf : 'f' ≠ c := (ne_of_number hc (by decide)).symm
  rw [readTree, if_neg (ne_of_number hc (by decide)), if_neg (ne_of_number hc (by decide)),
    if_neg (ne_of_number hc (by decide)), if_neg (by simp [hn]), if_neg (by simp [ht]),
    if_neg (by simp [hf])]

theorem skipSpace_cons {c : Char} (hc : isSpace c = false) (s : List Char) :
    skipSpace (c :: s) = c :: s := by
  simp [skipSpace, hc]

theorem Exact.chars_head (h : Exact v) :
    ∃ c r, v.chars = c :: r ∧ isSpace c = false ∧ c ≠ ']' := by
  cases h with
  | null => exact ⟨_, _, rfl, rfl, by decide⟩
  | bool b => cases b <;> exact ⟨_, _, rfl, rfl, by decide⟩
  | @integer n _ _ =>
    obtain ⟨c, r, hcr, hc⟩ := intChars_head n
    refine ⟨c, r, hcr, ?_, ne_of_number hc (by decide)⟩
    simp only [isSpace, Bool.or_eq_false_iff, beq_eq_false_iff_ne]
    exact ⟨⟨⟨ne_of_number hc (by decide), ne_of_number hc (by decide)⟩,
      ne_of_number hc (by decide)⟩, ne_of_number hc (by decide)⟩
  | string s => exact ⟨_, _, rfl, rfl, by decide⟩
  | array _ => exact ⟨_, _, rfl, rfl, by decide⟩
  | object _ _ => exact ⟨_, _, rfl, rfl, by decide⟩

theorem itemChars_head (h : Exact v) (items : List Value) :
    ∃ c r, itemChars (v :: items) = c :: r ∧ isSpace c = false ∧ c ≠ ']' := by
  obtain ⟨c, r, hcr, hspace, hclose⟩ := h.chars_head
  cases items with
  | nil => exact ⟨c, r, hcr, hspace, hclose⟩
  | cons w items =>
    exact ⟨c, _, by rw [itemChars, hcr, List.cons_append], hspace, hclose⟩

theorem fieldChars_singleton (f : String × Value) (u : List Char) :
    fieldChars [f] ++ u =
      '"' :: (f.1.toList.flatMap escape ++ '"' :: ':' :: (f.2.chars ++ u)) := by
  simp [fieldChars, stringChars]

theorem fieldChars_cons_cons (f g : String × Value) (fields : List (String × Value))
    (u : List Char) :
    fieldChars (f :: g :: fields) ++ u =
      '"' :: (f.1.toList.flatMap escape ++
        '"' :: ':' :: (f.2.chars ++ ',' :: (fieldChars (g :: fields) ++ u))) := by
  simp [fieldChars, stringChars]

theorem fieldChars_head (f : String × Value) (fields : List (String × Value)) (u : List Char) :
    ∃ w, fieldChars (f :: fields) ++ u = '"' :: w := by
  cases fields with
  | nil => exact ⟨_, fieldChars_singleton f u⟩
  | cons g fields => exact ⟨_, fieldChars_cons_cons f g fields u⟩

/-- The text of a value is read to its end, with fuel that its length bounds. -/
def ReadsBack (v : Value) : Prop :=
  ∀ fuel rest, 2 * v.chars.length ≤ fuel → Ends rest →
    readTree fuel (v.chars ++ rest) = some (v.tree, rest)

theorem readItems_last {s : List Char} {t : Tree} (h : readTree fuel s = some (t, ']' :: rest)) :
    readItems (fuel + 1) s = some ([t], rest) := by
  rw [readItems, h]
  rfl

theorem readItems_comma {s u : List Char} {t : Tree} (h : readTree fuel s = some (t, ',' :: u)) :
    readItems (fuel + 1) s = (readItems fuel (skipSpace u)).map fun p => (t :: p.1, p.2) := by
  rw [readItems, h]
  cases hrest : readItems fuel (skipSpace u) <;> simp [skipSpace_cons, isSpace, hrest]

theorem readFields_last {s u : List Char} {k : Option String} {t : Tree}
    (hkey : readString s = some (k, ':' :: u))
    (h : readTree fuel (skipSpace u) = some (t, '}' :: rest)) :
    readFields (fuel + 1) ('"' :: s) = some ([(k, t)], rest) := by
  simp [readFields, hkey, skipSpace_cons, isSpace, h]

theorem readFields_comma {s u w : List Char} {k : Option String} {t : Tree}
    (hkey : readString s = some (k, ':' :: u))
    (h : readTree fuel (skipSpace u) = some (t, ',' :: w)) :
    readFields (fuel + 1) ('"' :: s) =
      (readFields fuel (skipSpace w)).map fun p => ((k, t) :: p.1, p.2) := by
  cases hrest : readFields fuel (skipSpace w) <;>
    simp [readFields, hkey, skipSpace_cons, isSpace, h, hrest]

theorem Exact.skipSpace_chars (h : Exact v) (u : List Char) :
    skipSpace (v.chars ++ u) = v.chars ++ u := by
  obtain ⟨c, r, hcr, hspace, -⟩ := h.chars_head
  rw [hcr, List.cons_append, skipSpace_cons hspace]

theorem readItems_itemChars (hne : items ≠ []) (hexact : ∀ v ∈ items, Exact v)
    (h : ∀ v ∈ items, ReadsBack v) (hfuel : 2 * (itemChars items).length + 1 ≤ fuel) :
    readItems fuel (itemChars items ++ ']' :: rest) = some (items.map tree, rest) := by
  induction items generalizing fuel with
  | nil => exact absurd rfl hne
  | cons v items ih =>
    obtain ⟨fuel, rfl⟩ : ∃ k, fuel = k + 1 := ⟨fuel - 1, by omega⟩
    have hv := h v List.mem_cons_self
    cases items with
    | nil =>
      rw [itemChars] at hfuel ⊢
      rw [readItems_last (hv _ _ (by omega) (by simp [Ends])), List.map_cons, List.map_nil]
    | cons w items =>
      obtain ⟨c, r, hcr, hspace, -⟩ :=
        itemChars_head (hexact w (List.mem_cons_of_mem _ List.mem_cons_self)) items
      rw [itemChars, List.length_append, List.length_cons] at hfuel
      have htail : readItems fuel (itemChars (w :: items) ++ ']' :: rest) =
          some ((w :: items).map tree, rest) :=
        ih (List.cons_ne_nil _ _) (fun v hv => hexact v (List.mem_cons_of_mem _ hv))
          (fun v hv => h v (List.mem_cons_of_mem _ hv)) (by omega)
      rw [hcr, List.cons_append] at htail
      rw [itemChars, List.append_assoc, List.cons_append,
        readItems_comma (hv _ _ (by omega) (by simp [Ends])), hcr, List.cons_append,
        skipSpace_cons hspace, htail]
      rfl

theorem readFields_fieldChars (hne : fields ≠ []) (hexact : ∀ f ∈ fields, Exact f.2)
    (h : ∀ f ∈ fields, ReadsBack f.2) (hfuel : 2 * (fieldChars fields).length + 1 ≤ fuel) :
    readFields fuel (fieldChars fields ++ '}' :: rest) =
      some (fields.map fun f => (some f.1, f.2.tree), rest) := by
  induction fields generalizing fuel with
  | nil => exact absurd rfl hne
  | cons f fields ih =>
    obtain ⟨fuel, rfl⟩ : ∃ k, fuel = k + 1 := ⟨fuel - 1, by omega⟩
    have hf := h f List.mem_cons_self
    have hspace := (hexact f List.mem_cons_self).skipSpace_chars
    cases fields with
    | nil =>
      have hlength : f.2.chars.length ≤ (fieldChars [f]).length := by
        simp only [fieldChars, List.length_append, List.length_cons]
        omega
      rw [fieldChars_singleton, readFields_last (readString_escaped _ _)
        (by rw [hspace]; exact hf _ _ (by omega) (by simp [Ends]))]
      rfl
    | cons g fields =>
      have hlength : f.2.chars.length + 1 + (fieldChars (g :: fields)).length ≤
          (fieldChars (f :: g :: fields)).length := by
        simp only [fieldChars, List.length_append, List.length_cons]
        omega
      obtain ⟨w, hw⟩ := fieldChars_head g fields ('}' :: rest)
      rw [fieldChars_cons_cons, readFields_comma (readString_escaped _ _)
        (by rw [hspace]; exact hf _ _ (by omega) (by simp [Ends])), hw, skipSpace_cons rfl, ← hw,
        ih (List.cons_ne_nil _ _) (fun f hf => hexact f (List.mem_cons_of_mem _ hf))
          (fun f hf => h f (List.mem_cons_of_mem _ hf)) (by omega)]
      rfl

theorem readTree_items {s : List Char} (hspace : skipSpace s = s) (hclose : s.head? ≠ some ']') :
    readTree (fuel + 1) ('[' :: s) = (readItems fuel s).map fun p => (.array p.1, p.2) := by
  rw [readTree, if_neg (by decide), if_pos rfl, hspace]
  split
  · exact absurd rfl hclose
  · rfl

theorem readTree_fields (s : List Char) :
    readTree (fuel + 1) ('{' :: '"' :: s) =
      (readFields fuel ('"' :: s)).map fun p => (.object p.1, p.2) := by
  rw [readTree, if_neg (by decide), if_neg (by decide), if_pos rfl, skipSpace_cons rfl]
  rfl

theorem readsBack_of_succ (hne : v.chars ≠ [])
    (h : ∀ fuel rest, 2 * v.chars.length ≤ fuel + 1 → Ends rest →
      readTree (fuel + 1) (v.chars ++ rest) = some (v.tree, rest)) : ReadsBack v := by
  intro fuel rest hfuel hrest
  have hlength := List.length_pos_iff.2 hne
  obtain ⟨fuel, rfl⟩ : ∃ k, fuel = k + 1 := ⟨fuel - 1, by omega⟩
  exact h fuel rest hfuel hrest

/-- By induction on the value: an array and an object have two characters more than what stands in
them, which makes up for the fuel that reading their brackets takes. -/
theorem Exact.readsBack (h : Exact v) : ReadsBack v := by
  induction h with
  | null => exact readsBack_of_succ (by simp [chars]) fun _ _ _ _ => by simp [chars, readTree, tree]
  | bool b =>
    refine readsBack_of_succ (by cases b <;> simp [chars]) fun fuel rest _ _ => ?_
    cases b <;> simp [chars, readTree, tree]
  | @integer n _ _ =>
    obtain ⟨c, r, hcr, hc⟩ := intChars_head n
    refine readsBack_of_succ (by simp [chars, Number.chars, hcr]) fun fuel rest _ hrest => ?_
    have hread := readNumber_intChars n hrest
    rw [hcr, List.cons_append] at hread
    rw [chars, Number.chars, hcr, List.cons_append, readTree_number hc, hread, Option.map_some,
      tree, lexeme_integer]
  | string s =>
    refine readsBack_of_succ (by simp [chars, stringChars]) fun fuel rest _ _ => ?_
    rw [chars, stringChars, List.cons_append, List.append_assoc, List.singleton_append, readTree,
      if_pos rfl, readString_escaped, Option.map_some, tree]
  | @array items h ih =>
    refine readsBack_of_succ (by simp [chars]) fun fuel rest hfuel _ => ?_
    rw [chars, List.length_cons, List.length_append, List.length_singleton] at hfuel
    rw [chars, List.cons_append, List.append_assoc, List.singleton_append, tree]
    cases items with
    | nil => rfl
    | cons v items =>
      obtain ⟨c, r, hcr, hspace, hclose⟩ := itemChars_head (h v List.mem_cons_self) items
      rw [readTree_items (by rw [hcr, List.cons_append, skipSpace_cons hspace])
          (by simpa [hcr] using hclose),
        readItems_itemChars (List.cons_ne_nil _ _) h ih (by omega), Option.map_some]
  | @object fields _ h ih =>
    refine readsBack_of_succ (by simp [chars]) fun fuel rest hfuel _ => ?_
    rw [chars, List.length_cons, List.length_append, List.length_singleton] at hfuel
    rw [chars, List.cons_append, List.append_assoc, List.singleton_append, tree]
    cases fields with
    | nil => rfl
    | cons f fields =>
      obtain ⟨w, hw⟩ := fieldChars_head f fields ('}' :: rest)
      rw [hw, readTree_fields, ← hw,
        readFields_fieldChars (List.cons_ne_nil _ _) h ih (by omega), Option.map_some]

theorem Exact.ofText?_compact (h : Exact v) : Tree.ofText? v.compact = some v.tree := by
  have hread := h.readsBack (2 * v.compact.length + 2) [] (by simp [compact]) (by simp [Ends])
  have hspace := h.skipSpace_chars []
  rw [List.append_nil] at hread hspace
  rw [Tree.ofText?, compact, String.toList_ofList, hspace, ← compact, hread]
  rfl

end Value

end MetricSql.Json
