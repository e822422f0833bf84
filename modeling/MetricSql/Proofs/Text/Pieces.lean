import MetricSql.Text.Literal

namespace MetricSql.Text

/-- A text cut where single-quoted literals stand: the text in front of each literal, its value, and
the text after the last one. -/
inductive Pieces
  | last (text : List Char)
  | cons (text value : List Char) (rest : Pieces)
  deriving DecidableEq

namespace Pieces

def outside : Pieces → List (List Char)
  | last s => [s]
  | cons s _ p => s :: p.outside

def values : Pieces → List (List Char)
  | last _ => []
  | cons _ v p => v :: p.values

def prepend (s : List Char) : Pieces → Pieces
  | last t => last (s ++ t)
  | cons t v p => cons (s ++ t) v p

mutual

/-- Cuts a text. There is no result when a literal is not closed. -/
def ofChars? : List Char → Option Pieces
  | [] => some (last [])
  | c :: r =>
    if c = '\'' then (ofOpened? r).map fun p => cons [] p.1 p.2
    else (ofChars? r).map (prepend [c])

def ofOpened? : List Char → Option (List Char × Pieces)
  | [] => none
  | [c] => if c = '\'' then some ([], last []) else none
  | c :: d :: r =>
    if c = '\'' then
      if d = '\'' then (ofOpened? r).map fun p => ('\'' :: p.1, p.2)
      else (ofChars? (d :: r)).map fun p => ([], p)
    else (ofOpened? (d :: r)).map fun p => (c :: p.1, p.2)

end

def text : Pieces → List Char
  | last s => s
  | cons s v p => s ++ '\'' :: (doubleQuotes v ++ '\'' :: p.text)

/-- Quotes stand in literals only, and no literal touches the next one. -/
def Clean : Pieces → Prop
  | last s => '\'' ∉ s
  | cons s _ p => '\'' ∉ s ∧ p.text.head? ≠ some '\'' ∧ p.Clean

def append : Pieces → Pieces → Pieces
  | last s, q => q.prepend s
  | cons s v p, q => cons s v (append p q)

instance : Append Pieces := ⟨append⟩

def quoted (s : String) : Pieces := cons [] s.toList (last [])

def join (sep : List Char) : List Pieces → Pieces
  | [] => last []
  | [p] => p
  | p :: q :: l => p ++ prepend sep (join sep (q :: l))

def skeleton : Pieces → Pieces
  | last s => last s
  | cons s _ p => cons s [] p.skeleton

variable {p q : Pieces} {s v r sep : List Char} {l : List Pieces}

theorem last_append (s : List Char) (q : Pieces) : last s ++ q = q.prepend s := rfl

theorem cons_append (s v : List Char) (p q : Pieces) : cons s v p ++ q = cons s v (p ++ q) := rfl

theorem ofChars?_append (hs : '\'' ∉ s) (r : List Char) :
    ofChars? (s ++ r) = (ofChars? r).map (prepend s) := by
  induction s with
  | nil =>
    have hid : prepend [] = id := by
      funext p
      cases p <;> rfl
    rw [List.nil_append, hid, Option.map_id, id]
  | cons c s ih =>
    have hc : c ≠ '\'' := fun h => hs (h ▸ List.mem_cons_self)
    have hprepend : prepend [c] ∘ prepend s = prepend (c :: s) := by
      funext p
      cases p <;> rfl
    rw [List.cons_append, ofChars?, if_neg hc, ih fun h => hs (List.mem_cons_of_mem c h),
      Option.map_map, hprepend]

theorem ofOpened?_doubleQuotes (v : List Char) (hr : r.head? ≠ some '\'') :
    ofOpened? (doubleQuotes v ++ '\'' :: r) = (ofChars? r).map fun p => (v, p) := by
  induction v with
  | nil =>
    cases r with
    | nil => rfl
    | cons d r =>
      have hd : d ≠ '\'' := fun h => hr (by simp [h])
      simp [doubleQuotes, ofOpened?, hd]
  | cons c v ih =>
    by_cases hc : c = '\''
    · subst hc
      simp [doubleQuotes, ofOpened?, ih, Function.comp_def]
    · obtain ⟨d, t, hdt⟩ : ∃ d t, doubleQuotes v ++ '\'' :: r = d :: t := by
        cases hv : doubleQuotes v <;> simp
      simp only [doubleQuotes, hc, if_false, List.cons_append, hdt, ofOpened?]
      rw [← hdt, ih, Option.map_map]
      rfl

/-- Clean pieces are found again in their text. -/
theorem ofChars?_text (h : p.Clean) : ofChars? p.text = some p := by
  induction p with
  | last s =>
    have hread := ofChars?_append h []
    rw [List.append_nil] at hread
    rw [text, hread]
    simp [ofChars?, prepend]
  | cons s v p ih =>
    obtain ⟨hs, hhead, hp⟩ := h
    rw [text, ofChars?_append hs, ofChars?, if_pos rfl, ofOpened?_doubleQuotes v hhead, ih hp]
    simp [prepend]

@[simp] theorem text_prepend (s : List Char) (p : Pieces) : (prepend s p).text = s ++ p.text := by
  cases p <;> simp [prepend, text]

@[simp] theorem text_append (p q : Pieces) : (p ++ q).text = p.text ++ q.text := by
  induction p with
  | last s => rw [last_append, text_prepend, text]
  | cons s v p ih => simp [cons_append, text, ih]

@[simp] theorem text_quoted (s : String) : (quoted s).text = (literal s).toList := by
  simp [quoted, text, literal]

theorem text_join (sep : List Char) (l : List Pieces) :
    (join sep l).text = sep.intercalate (l.map text) := by
  induction l with
  | nil => rfl
  | cons p l ih =>
    cases l with
    | nil => simp [join]
    | cons q l =>
      rw [join, text_append, text_prepend, ih]
      simp only [List.map_cons, List.intercalate_cons_cons, List.append_assoc]

@[simp] theorem values_prepend (s : List Char) (p : Pieces) : (prepend s p).values = p.values := by
  cases p <;> rfl

@[simp] theorem values_append (p q : Pieces) : (p ++ q).values = p.values ++ q.values := by
  induction p with
  | last s => rw [last_append, values_prepend, values, List.nil_append]
  | cons s v p ih => rw [cons_append, values, values, ih, List.cons_append]

theorem values_join (sep : List Char) (l : List Pieces) :
    (join sep l).values = l.flatMap values := by
  induction l with
  | nil => rfl
  | cons p l ih =>
    cases l with
    | nil => simp [join]
    | cons q l => rw [join, values_append, values_prepend, ih, List.flatMap_cons (x := p)]

@[simp] theorem skeleton_prepend (s : List Char) (p : Pieces) :
    (prepend s p).skeleton = prepend s p.skeleton := by
  cases p <;> rfl

@[simp] theorem skeleton_append (p q : Pieces) : (p ++ q).skeleton = p.skeleton ++ q.skeleton := by
  induction p with
  | last s => rw [last_append, skeleton_prepend, skeleton, last_append]
  | cons s v p ih => rw [cons_append, skeleton, skeleton, ih, cons_append]

theorem skeleton_join (sep : List Char) (l : List Pieces) :
    (join sep l).skeleton = join sep (l.map skeleton) := by
  induction l with
  | nil => rfl
  | cons p l ih =>
    cases l with
    | nil => rfl
    | cons q l =>
      rw [join, skeleton_append, skeleton_prepend, ih]
      rfl

theorem outside_skeleton (p : Pieces) : p.skeleton.outside = p.outside := by
  induction p with
  | last s => rfl
  | cons s v p ih => rw [skeleton, outside, outside, ih]

theorem length_outside (p : Pieces) : p.outside.length = p.values.length + 1 := by
  induction p with
  | last s => rfl
  | cons s v p ih => rw [outside, values, List.length_cons, ih, List.length_cons]

theorem Clean.prepend (hs : '\'' ∉ s) (h : p.Clean) : (prepend s p).Clean := by
  cases p with
  | last t =>
    exact fun hmem => (List.mem_append.mp hmem).elim hs h
  | cons t v p =>
    exact ⟨fun hmem => (List.mem_append.mp hmem).elim hs h.1, h.2⟩

theorem Clean.append (hp : p.Clean) (hq : q.Clean) (hhead : q.text.head? ≠ some '\'') :
    (p ++ q).Clean := by
  induction p with
  | last s => exact hq.prepend hp
  | cons s v p ih =>
    obtain ⟨hs, hnext, hrest⟩ := hp
    refine ⟨hs, ?_, ih hrest⟩
    show (p ++ q).text.head? ≠ some '\''
    rw [text_append, List.head?_append]
    cases h : p.text.head? with
    | none => exact hhead
    | some c =>
      rw [h] at hnext
      exact hnext

theorem Clean.join (hne : sep ≠ []) (hsep : '\'' ∉ sep) (h : ∀ p ∈ l, p.Clean) :
    (join sep l).Clean := by
  induction l with
  | nil => exact List.not_mem_nil
  | cons p l ih =>
    cases l with
    | nil => exact h p List.mem_cons_self
    | cons q l =>
      have hrest := ih fun p hp => h p (List.mem_cons_of_mem _ hp)
      refine (h p List.mem_cons_self).append (hrest.prepend hsep) ?_
      obtain ⟨c, t, rfl⟩ := List.exists_cons_of_ne_nil hne
      rw [text_prepend]
      exact fun hc => hsep (Option.some.inj hc ▸ List.mem_cons_self)

end Pieces

end MetricSql.Text
