import Mathlib.Data.List.Infix
import MetricSql.Window.Where

namespace MetricSql

namespace Text

variable {s v rest : List Char} {value : String} {values : List String}

/-- The value of a literal that is open, and what follows it. A doubled quote stands for one. -/
def closeLiteral? : List Char → Option (List Char × List Char)
  | [] => none
  | [c] => if c = '\'' then some ([], []) else none
  | c :: d :: r =>
    if c = '\'' then
      if d = '\'' then (closeLiteral? r).map fun p => ('\'' :: p.1, p.2) else some ([], d :: r)
    else (closeLiteral? (d :: r)).map fun p => (c :: p.1, p.2)

theorem closeLiteral?_doubleQuotes (v : List Char) (hrest : rest.head? ≠ some '\'') :
    closeLiteral? (doubleQuotes v ++ '\'' :: rest) = some (v, rest) := by
  induction v with
  | nil =>
    cases rest with
    | nil => rfl
    | cons d r =>
      have hd : d ≠ '\'' := fun h => hrest (by simp [h])
      simp [doubleQuotes, closeLiteral?, hd]
  | cons c v ih =>
    by_cases hc : c = '\''
    · subst hc
      simp [doubleQuotes, closeLiteral?, ih]
    · obtain ⟨d, t, hdt⟩ : ∃ d t, doubleQuotes v ++ '\'' :: rest = d :: t := by
        cases hv : doubleQuotes v <;> simp
      simp only [doubleQuotes, hc, if_false, List.cons_append, hdt, closeLiteral?]
      rw [← hdt, ih, Option.map_some]

theorem eq_of_closeLiteral? (h : closeLiteral? s = some (v, rest)) :
    s = doubleQuotes v ++ '\'' :: rest ∧ rest.head? ≠ some '\'' := by
  fun_induction closeLiteral? s generalizing v with
  | case1 => cases h
  | case2 =>
    cases h
    exact ⟨rfl, nofun⟩
  | case3 => cases h
  | case4 r ih =>
    obtain ⟨⟨w, rest'⟩, hw, heq⟩ := Option.map_eq_some_iff.mp h
    cases heq
    obtain ⟨rfl, hrest⟩ := ih hw
    exact ⟨by simp [doubleQuotes], hrest⟩
  | case5 d r hd =>
    cases h
    exact ⟨rfl, by simpa using hd⟩
  | case6 c d r hc ih =>
    obtain ⟨⟨w, rest'⟩, hw, heq⟩ := Option.map_eq_some_iff.mp h
    cases heq
    obtain ⟨hs, hrest⟩ := ih hw
    exact ⟨by rw [hs, doubleQuotes, if_neg hc, List.cons_append], hrest⟩

def literal? (s : List Char) : Option (String × List Char) :=
  ((['\''].isPrefixOf? s).bind closeLiteral?).map fun p => (.ofList p.1, p.2)

theorem literal?_eq_some_iff : literal? s = some (value, rest) ↔
    s = (literal value).toList ++ rest ∧ rest.head? ≠ some '\'' := by
  simp only [literal?, Option.map_eq_some_iff, Option.bind_eq_some_iff,
    List.isPrefixOf?_eq_some_iff_append_eq]
  constructor
  · rintro ⟨⟨v, rest'⟩, ⟨opened, rfl, hclose⟩, heq⟩
    cases heq
    obtain ⟨rfl, hrest⟩ := eq_of_closeLiteral? hclose
    exact ⟨by simp [literal], hrest⟩
  · rintro ⟨rfl, hrest⟩
    exact ⟨_, ⟨_, by simp [literal], closeLiteral?_doubleQuotes value.toList hrest⟩, by simp⟩

/-- The values of the literals at the front of a text, between which commas stand, and what follows
them. -/
def literals? (s : List Char) : Option (List String × List Char) :=
  match _h : literal? s with
  | none => none
  | some (value, rest) =>
    match rest with
    | ',' :: rest => (literals? rest).map fun p => (value :: p.1, p.2)
    | rest => some ([value], rest)
termination_by s.length
decreasing_by
  have hlen := congrArg List.length (literal?_eq_some_iff.mp _h).1
  simp only [List.length_append, List.length_cons] at hlen
  omega

theorem literals?_of_comma (h : literal? s = some (value, ',' :: rest)) :
    literals? s = (literals? rest).map fun p => (value :: p.1, p.2) := by
  rw [literals?]
  split
  · next k => cases h.symm.trans k
  · next k => cases h.symm.trans k; rfl

theorem literals?_of_ne_comma (h : literal? s = some (value, rest)) (hcomma : rest.head? ≠ some ',') :
    literals? s = some ([value], rest) := by
  rw [literals?]
  split
  · next k => cases h.symm.trans k
  · next k =>
    cases h.symm.trans k
    split
    · exact absurd rfl hcomma
    · rfl

theorem toList_literals (value next : String) (values : List String) :
    (",".intercalate ((value :: next :: values).map literal)).toList =
      (literal value).toList ++ ',' :: (",".intercalate ((next :: values).map literal)).toList := by
  simp only [String.toList_intercalate, List.map_cons, List.intercalate_cons_cons]
  simp

theorem literals?_append (hne : values ≠ []) (hquote : rest.head? ≠ some '\'')
    (hcomma : rest.head? ≠ some ',') :
    literals? ((",".intercalate (values.map literal)).toList ++ rest) = some (values, rest) := by
  induction values with
  | nil => exact absurd rfl hne
  | cons value values ih =>
    cases values with
    | nil => exact literals?_of_ne_comma (literal?_eq_some_iff.mpr ⟨by simp, hquote⟩) hcomma
    | cons next values =>
      rw [toList_literals, List.append_assoc, List.cons_append,
        literals?_of_comma (literal?_eq_some_iff.mpr ⟨rfl, by simp⟩), ih (List.cons_ne_nil _ _),
        Option.map_some]

theorem literals?_eq_some_iff : literals? s = some (values, rest) ↔
    values ≠ [] ∧ s = (",".intercalate (values.map literal)).toList ++ rest ∧
      rest.head? ≠ some '\'' ∧ rest.head? ≠ some ',' := by
  constructor
  · intro h
    fun_induction literals? s generalizing values with
    | case1 => cases h
    | case2 s value rest' hread hlen ih =>
      obtain ⟨⟨values', rest''⟩, hvalues, heq⟩ := Option.map_eq_some_iff.mp h
      cases heq
      obtain ⟨hne, rfl, hrest⟩ := ih hvalues
      obtain ⟨next, values', rfl⟩ := List.exists_cons_of_ne_nil hne
      obtain ⟨rfl, -⟩ := literal?_eq_some_iff.mp hread
      exact ⟨List.cons_ne_nil _ _, by rw [toList_literals]; simp, hrest⟩
    | case3 s value rest' hread hne =>
      cases h
      obtain ⟨hs, hquote⟩ := literal?_eq_some_iff.mp hread
      refine ⟨List.cons_ne_nil _ _, by simpa using hs, hquote, fun hcomma => ?_⟩
      obtain ⟨r, rfl⟩ := List.head?_eq_some_iff.mp hcomma
      exact hne r hread rfl HEq.rfl
  · rintro ⟨hne, rfl, hquote, hcomma⟩
    exact literals?_append hne hquote hcomma

theorem append_cons_ne {c d : Char} (h : d ≠ c) (s t u : List Char) :
    s ++ d :: t ≠ c :: (s ++ d :: u) := by
  induction s with
  | nil => exact fun k => h (List.cons.inj k).1
  | cons a s ih =>
    intro k
    obtain ⟨rfl, hrest⟩ := List.cons.inj k
    exact ih hrest

end Text

namespace DatePredicate

open Text

variable {column s : String} {p : DatePredicate} {row : String → String}

def between? (column s : String) : Option DatePredicate := do
  let s ← (column ++ " >= ").toList.isPrefixOf? s.toList
  let (start, s) ← literal? s
  let s ← (" and " ++ column ++ " <= ").toList.isPrefixOf? s
  let (stop, s) ← literal? s
  if s = [] then some (between column start stop) else none

def oneOf? (column s : String) : Option DatePredicate := do
  let s ← ("(" ++ column ++ " in (").toList.isPrefixOf? s.toList
  let (dates, s) ← literals? s
  if s = "))".toList then some (oneOf column dates) else none

/-- The condition on the column that a text states, if it states one. -/
def ofText? (column s : String) : Option DatePredicate :=
  if s = "1 = 0" then some never else (between? column s).or (oneOf? column s)

/-- A condition that is written for the column. A list without dates could not be read. -/
def IsAbout (column : String) : DatePredicate → Prop
  | between c _ _ => c = column
  | oneOf c dates => c = column ∧ dates ≠ []
  | never => True

theorem toList_text_between (column start stop : String) :
    (between column start stop).text.toList = (column ++ " >= ").toList ++
      ((literal start).toList ++ ((" and " ++ column ++ " <= ").toList ++
        ((literal stop).toList ++ []))) := by
  simp [text]

theorem toList_text_oneOf (column : String) (dates : List String) :
    (oneOf column dates).text.toList = ("(" ++ column ++ " in (").toList ++
      ((",".intercalate (dates.map literal)).toList ++ "))".toList) := by
  simp [text]

theorem between?_eq_some_iff : between? column s = some p ↔
    ∃ start stop, p = between column start stop ∧ p.text = s := by
  simp only [between?, Option.bind_eq_bind, Option.bind_eq_some_iff, Prod.exists,
    List.isPrefixOf?_eq_some_iff_append_eq, literal?_eq_some_iff]
  constructor
  · rintro ⟨_, hs, start, _, ⟨rfl, -⟩, _, rfl, stop, rest, ⟨rfl, -⟩, h⟩
    split at h
    · next hrest =>
      obtain rfl := Option.some.inj h
      subst hrest
      exact ⟨start, stop, rfl, String.toList_inj.mp ((toList_text_between _ _ _).trans hs)⟩
    · cases h
  · rintro ⟨start, stop, rfl, rfl⟩
    exact ⟨_, (toList_text_between column start stop).symm, start, _, ⟨rfl, by simp⟩, _, rfl, stop,
      [], ⟨rfl, by simp⟩, if_pos rfl⟩

theorem oneOf?_eq_some_iff : oneOf? column s = some p ↔
    ∃ dates, dates ≠ [] ∧ p = oneOf column dates ∧ p.text = s := by
  simp only [oneOf?, Option.bind_eq_bind, Option.bind_eq_some_iff, Prod.exists,
    List.isPrefixOf?_eq_some_iff_append_eq, literals?_eq_some_iff]
  constructor
  · rintro ⟨_, hs, dates, rest, ⟨hne, rfl, -⟩, h⟩
    split at h
    · next hrest =>
      obtain rfl := Option.some.inj h
      subst hrest
      exact ⟨dates, hne, rfl, String.toList_inj.mp ((toList_text_oneOf _ _).trans hs)⟩
    · cases h
  · rintro ⟨dates, hne, rfl, rfl⟩
    exact ⟨_, (toList_text_oneOf column dates).symm, dates, _, ⟨hne, rfl, by simp, by simp⟩,
      if_pos rfl⟩

theorem text_eq_never_iff : p.text = "1 = 0" ↔ p = .never := by
  constructor
  · intro h
    have hchars := congrArg String.toList h
    cases p with
    | between column start stop =>
      have hmem : '>' ∈ (between column start stop).text.toList := by simp [text]
      rw [hchars] at hmem
      exact absurd hmem (by decide)
    | oneOf column dates =>
      have hmem : '(' ∈ (oneOf column dates).text.toList := by simp [text]
      rw [hchars] at hmem
      exact absurd hmem (by decide)
    | never => rfl
  · rintro rfl
    rfl

theorem text_between_ne_text_oneOf (column start stop : String) (dates : List String) :
    (between column start stop).text ≠ (oneOf column dates).text := by
  intro h
  have hchars := congrArg String.toList h
  exact append_cons_ne (show ' ' ≠ '(' by decide) column.toList _ _ (by simpa [text] using hchars)

/-- A condition on a column is found again in its text, and any text that is read is the text of
what was read. -/
theorem ofText?_eq_some_iff : ofText? column s = some p ↔ p.IsAbout column ∧ p.text = s := by
  constructor
  · intro h
    rw [ofText?] at h
    split at h
    · next hs =>
      obtain rfl := Option.some.inj h
      exact ⟨trivial, hs.symm⟩
    · obtain h | ⟨-, h⟩ := Option.or_eq_some_iff.mp h
      · obtain ⟨start, stop, rfl, rfl⟩ := between?_eq_some_iff.mp h
        exact ⟨rfl, rfl⟩
      · obtain ⟨dates, hne, rfl, rfl⟩ := oneOf?_eq_some_iff.mp h
        exact ⟨⟨rfl, hne⟩, rfl⟩
  · rintro ⟨habout, rfl⟩
    cases p with
    | between c start stop =>
      obtain rfl := habout
      have hne : (between c start stop).text ≠ "1 = 0" := mt text_eq_never_iff.mp nofun
      rw [ofText?, if_neg hne, between?_eq_some_iff.mpr ⟨start, stop, rfl, rfl⟩, Option.some_or]
    | oneOf c dates =>
      obtain ⟨rfl, hdates⟩ := habout
      have hne : (oneOf c dates).text ≠ "1 = 0" := mt text_eq_never_iff.mp nofun
      have hnone : between? c (oneOf c dates).text = none := by
        rw [Option.eq_none_iff_forall_ne_some]
        intro q hq
        obtain ⟨start, stop, rfl, htext⟩ := between?_eq_some_iff.mp hq
        exact text_between_ne_text_oneOf c start stop dates htext
      rw [ofText?, if_neg hne, hnone, Option.none_or]
      exact oneOf?_eq_some_iff.mpr ⟨dates, hdates, rfl, rfl⟩
    | never => rfl

theorem IsAbout.ofText?_text (h : p.IsAbout column) : ofText? column p.text = some p :=
  ofText?_eq_some_iff.mpr ⟨h, rfl⟩

/-- Whether a row, which has a text in each column, satisfies a condition. Dates are compared as
texts. -/
def Holds (row : String → String) : DatePredicate → Prop
  | between column start stop => start ≤ row column ∧ row column ≤ stop
  | oneOf column dates => row column ∈ dates
  | never => False

instance (row : String → String) : (p : DatePredicate) → Decidable (p.Holds row)
  | between column start stop => inferInstanceAs (Decidable (start ≤ row column ∧ row column ≤ stop))
  | oneOf column dates => inferInstanceAs (Decidable (row column ∈ dates))
  | never => inferInstanceAs (Decidable False)

/-- Whether the text of a condition on the column selects a row. -/
def Selects (column text : String) (row : String → String) : Prop :=
  ∃ p, ofText? column text = some p ∧ p.Holds row

theorem IsAbout.selects_iff (h : p.IsAbout column) :
    Selects column p.text row ↔ p.Holds row := by
  simp [Selects, h.ofText?_text]

end DatePredicate

namespace DateRules

variable {r : DateRules} {w : Window} {p : DatePredicate}

theorem isAbout_defaultRecent (h : r.defaultRecent w = some p) : p.IsAbout (r.column w) := by
  simp only [defaultRecent] at h
  split at h
  · cases h
  · cases h
    rfl

theorem isAbout_dateWhere_none (h : r.dateWhere w none = some p) : p.IsAbout (r.column w) := by
  simp only [dateWhere, Option.filter_none] at h
  cases hm : w.mode with
  | list =>
    simp only [hm, listWhere] at h
    split at h
    · cases h
    · next hne =>
      cases h
      exact ⟨rfl, fun hdates => hne (.inr hdates)⟩
  | between =>
    simp only [hm, betweenWhere] at h
    split at h
    · split at h
      · cases h
      · cases h
        rfl
    · cases h
  | available =>
    simp only [hm, availableWhere, Option.filter_none] at h
    exact isAbout_defaultRecent h
  | recent =>
    simp only [hm] at h
    exact isAbout_defaultRecent h

end DateRules

end MetricSql
