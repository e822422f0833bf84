import MetricSql.Proofs.Query.FilterPieces
import MetricSql.Proofs.Window.Verified
import MetricSql.Query.Where

namespace MetricSql

open Text Json

namespace DatePredicate

def dates : DatePredicate → List String
  | between _ start stop => [start, stop]
  | oneOf _ dates => dates
  | never => []

def shape : DatePredicate → DatePredicate
  | between column _ _ => between column "" ""
  | oneOf column dates => oneOf column (dates.map fun _ => "")
  | never => never

def pieces : DatePredicate → Pieces
  | between column start stop =>
    .cons (column ++ " >= ").toList start.toList
      (.cons (" and " ++ column ++ " <= ").toList stop.toList (.last []))
  | oneOf column dates =>
    (Pieces.join ",".toList (dates.map .quoted) ++ .last "))".toList).prepend
      ("(" ++ column ++ " in (").toList
  | never => .last "1 = 0".toList

theorem text_pieces (p : DatePredicate) : p.pieces.text = p.text.toList := by
  cases p with
  | between column start stop => simp [pieces, text, Pieces.text, literal]
  | oneOf column dates =>
    simp [pieces, text, Pieces.text, Pieces.text_join, String.toList_intercalate,
      Function.comp_def]
  | never => rfl

theorem values_pieces (p : DatePredicate) : p.pieces.values = p.dates.map String.toList := by
  cases p with
  | between column start stop => rfl
  | oneOf column dates =>
    simp only [pieces, DatePredicate.dates, Pieces.values_prepend, Pieces.values_append,
      Pieces.values_join, List.flatMap_map, Pieces.values, List.append_nil]
    exact List.map_eq_flatMap.symm
  | never => rfl

theorem skeleton_pieces (p : DatePredicate) : p.pieces.skeleton = p.shape.pieces.skeleton := by
  cases p with
  | between column start stop => rfl
  | oneOf column dates =>
    simp [pieces, shape, Pieces.skeleton, Pieces.skeleton_join, Pieces.quoted, Function.comp_def]
  | never => rfl

theorem IsAbout.clean_pieces {column : String} {p : DatePredicate} (h : p.IsAbout column)
    (hcolumn : '\'' ∉ column.toList) : p.pieces.Clean := by
  cases p with
  | between c start stop =>
    obtain rfl := h
    exact ⟨by simp [hcolumn], by simp [Pieces.text], by simp [hcolumn], by simp [Pieces.text],
      List.not_mem_nil⟩
  | oneOf c dates =>
    obtain ⟨rfl, -⟩ := h
    refine Pieces.Clean.prepend (by simp [hcolumn]) (Pieces.Clean.append ?_ ?_ (by decide))
    · refine Pieces.Clean.join (by decide) (by decide) fun p hp => ?_
      obtain ⟨s, -, rfl⟩ := List.mem_map.mp hp
      exact Value.clean_quoted s
    · exact show '\'' ∉ "))".toList by decide
  | never => exact show '\'' ∉ "1 = 0".toList by decide

end DatePredicate

namespace Window

def shape (w : Window) : Window :=
  { w with
    startDate := w.startDate.map fun _ => ""
    endDate := w.endDate.map fun _ => ""
    dateList := w.dateList.map fun _ => "" }

variable {r : DateRules} {w : Window} {p : DatePredicate}

theorem dateWhere_shape (r : DateRules) (w : Window) :
    (r.dateWhere w.shape none).map DatePredicate.shape =
      (r.dateWhere w none).map DatePredicate.shape := by
  have hcolumn : r.column w.shape = r.column w := rfl
  have hdefault : r.defaultRecent w.shape = r.defaultRecent w := rfl
  have hmode : w.shape.mode = w.mode := rfl
  cases hm : w.mode with
  | list =>
    simp only [DateRules.dateWhere, Option.filter_none, hmode, hm, DateRules.listWhere, hcolumn]
    have hnil : w.shape.dateList = [] ↔ w.dateList = [] := List.map_eq_nil_iff
    simp only [hnil]
    split
    · rfl
    · simp [DatePredicate.shape, shape]
  | between =>
    simp only [DateRules.dateWhere, Option.filter_none, hmode, hm, DateRules.betweenWhere, hcolumn]
    cases hs : w.startDate with
    | none => simp [shape, hs]
    | some start =>
      cases he : w.endDate with
      | none => simp [shape, hs, he]
      | some stop =>
        simp only [shape, hs, he, Option.map_some]
        split <;> rfl
  | available =>
    simp only [DateRules.dateWhere, Option.filter_none, hmode, hm, DateRules.availableWhere,
      hdefault]
  | recent => simp only [DateRules.dateWhere, Option.filter_none, hmode, hm, hdefault]

end Window

namespace Query

def shape (q : Query) : Query :=
  { q with filters := q.filters.map Filter.shape, window := q.window.map Window.shape }

def dateCondition (q : Query) (r : DateRules) : Option DatePredicate :=
  (q.window.bind (r.dateWhere · none)).or
    (if q.filters.isEmpty then q.window.bind r.defaultRecent else none)

/-- The texts that are quoted in the WHERE clause: the dates of its condition, then the strings and
the objects of its filters. -/
def quotedTexts (q : Query) (r : DateRules) : List String :=
  ((q.dateCondition r).map DatePredicate.dates).getD [] ++
    q.filters.flatMap fun f => f.value.quotedTexts

/-- Neither the fields of the filters nor the date column contain a single quote. -/
structure QuoteFree (q : Query) (r : DateRules) : Prop where
  fields : ∀ f ∈ q.filters, '\'' ∉ f.field.toList
  column : ∀ w, q.window = some w → '\'' ∉ (r.column w).toList

def pieces (q : Query) (r : DateRules) : Pieces :=
  match q.dateCondition r, q.filters with
  | some p, [] => p.pieces
  | some p, fs => p.pieces ++ (Filter.joinPieces fs ++ .last [')']).prepend " AND (".toList
  | none, fs => Filter.joinPieces fs

variable {q q' : Query} {r : DateRules}

theorem text_pieces (q : Query) (r : DateRules) :
    (q.pieces r).text = (q.whereText r none Filter.joinText).toList := by
  have hnil : Filter.joinText [] = "" := rfl
  have hsome (p : DatePredicate) : DatePredicate.optionText (some p) = p.text := rfl
  have hnone : DatePredicate.optionText none = "" := rfl
  rw [whereText, mergeWhere, dateText]
  cases hdate : q.window.bind (r.dateWhere · none) with
  | some p =>
    have hp : p.text ≠ "" := p.text_ne_empty
    have hcond : q.dateCondition r = some p := by rw [dateCondition, hdate, Option.some_or]
    cases hf : q.filters with
    | nil => simp [pieces, hcond, hf, hsome, hnil, hp, DatePredicate.text_pieces]
    | cons f fs =>
      simp [pieces, hcond, hf, hsome, hp, Filter.joinText_ne_empty, DatePredicate.text_pieces,
        Filter.text_joinPieces, Pieces.text]
  | none =>
    rw [hnone, if_pos rfl]
    cases hf : q.filters with
    | nil =>
      have hcond : q.dateCondition r = q.window.bind r.defaultRecent := by
        rw [dateCondition, hdate, Option.none_or, hf]
        rfl
      rw [hnil, if_pos rfl, pieces, hcond, hf]
      cases q.window.bind r.defaultRecent with
      | none => rfl
      | some p => simp only [DatePredicate.text_pieces, hsome]
    | cons f fs =>
      have hcond : q.dateCondition r = none := by
        rw [dateCondition, hdate, Option.none_or, hf]
        rfl
      rw [if_neg (Filter.joinText_ne_empty f fs), pieces, hcond, hf]
      exact Filter.text_joinPieces (f :: fs)

theorem values_pieces (q : Query) (r : DateRules) :
    (q.pieces r).values = (q.quotedTexts r).map String.toList := by
  rw [quotedTexts, pieces, List.map_append]
  cases q.dateCondition r with
  | none =>
    simp [Filter.values_joinPieces]
  | some p =>
    cases q.filters with
    | nil => simp [DatePredicate.values_pieces]
    | cons f fs => simp [DatePredicate.values_pieces, Filter.values_joinPieces, Pieces.values]

theorem dateCondition_shape (q : Query) (r : DateRules) :
    (q.shape.dateCondition r).map DatePredicate.shape =
      (q.dateCondition r).map DatePredicate.shape := by
  have hempty : q.shape.filters.isEmpty = q.filters.isEmpty := by simp [shape]
  have hrecent : q.shape.window.bind r.defaultRecent = q.window.bind r.defaultRecent := by
    rw [shape, Option.bind_map]
    rfl
  have hdate : (q.shape.window.bind (r.dateWhere · none)).map DatePredicate.shape =
      (q.window.bind (r.dateWhere · none)).map DatePredicate.shape := by
    cases hw : q.window with
    | none => simp [shape, hw]
    | some w => simpa [shape, hw] using w.dateWhere_shape r
  rw [dateCondition, dateCondition, Option.map_or, Option.map_or, hdate, hempty, hrecent]

theorem skeleton_pieces (q : Query) (r : DateRules) :
    (q.pieces r).skeleton = (q.shape.pieces r).skeleton := by
  have hcond := q.dateCondition_shape r
  have hfilters : q.shape.filters = q.filters.map Filter.shape := rfl
  rw [pieces, pieces, hfilters]
  cases hp : q.dateCondition r with
  | none =>
    rw [hp, Option.map_none, Option.map_eq_none_iff] at hcond
    rw [hcond]
    exact Filter.skeleton_joinPieces q.filters
  | some p =>
    rw [hp, Option.map_some, Option.map_eq_some_iff] at hcond
    obtain ⟨p', hp', hshape⟩ := hcond
    have hdate : p.pieces.skeleton = p'.pieces.skeleton := by
      rw [p.skeleton_pieces, p'.skeleton_pieces, hshape]
    rw [hp']
    cases q.filters with
    | nil => exact hdate
    | cons f fs => simp [hdate, Filter.skeleton_joinPieces (f :: fs)]

theorem QuoteFree.clean_pieces (h : q.QuoteFree r) : (q.pieces r).Clean := by
  have hdate (p) (hp : q.dateCondition r = some p) : p.pieces.Clean := by
    obtain ⟨w, hw, habout⟩ : ∃ w, q.window = some w ∧ p.IsAbout (r.column w) := by
      rw [dateCondition, Option.or_eq_some_iff] at hp
      obtain hp | ⟨-, hp⟩ := hp
      · obtain ⟨w, hw, hp⟩ := Option.bind_eq_some_iff.mp hp
        exact ⟨w, hw, DateRules.isAbout_dateWhere_none hp⟩
      · split at hp
        · obtain ⟨w, hw, hp⟩ := Option.bind_eq_some_iff.mp hp
          exact ⟨w, hw, DateRules.isAbout_defaultRecent hp⟩
        · cases hp
    exact habout.clean_pieces (h.column w hw)
  have hfilters := Filter.clean_joinPieces h.fields
  rw [pieces]
  cases hp : q.dateCondition r with
  | none => exact hfilters
  | some p =>
    cases hf : q.filters with
    | nil => exact hdate p hp
    | cons f fs =>
      rw [hf] at hfilters
      refine (hdate p hp).append (Pieces.Clean.prepend (by decide) ?_) (by simp)
      exact hfilters.append (show '\'' ∉ [')'] by decide) (by decide)

theorem QuoteFree.of_shape_eq (h : q.QuoteFree r) (hshape : q.shape = q'.shape) :
    q'.QuoteFree r := by
  have hfilters : q.filters.map Filter.shape = q'.filters.map Filter.shape :=
    congrArg Query.filters hshape
  have hwindow : q.window.map Window.shape = q'.window.map Window.shape :=
    congrArg Query.window hshape
  refine ⟨fun f hf => ?_, fun w hw => ?_⟩
  · obtain ⟨g, hg, hgf⟩ := List.mem_map.mp (hfilters ▸ List.mem_map_of_mem hf)
    have hfield : g.shape.field = f.shape.field := congrArg Filter.field hgf
    have hg := h.fields g hg
    rwa [show g.field = f.field from hfield] at hg
  · rw [hw, Option.map_some] at hwindow
    obtain ⟨v, hv, hvw⟩ := Option.map_eq_some_iff.mp hwindow
    have hcolumn : r.column v.shape = r.column w.shape := congrArg r.column hvw
    have hv := h.column v hv
    rwa [show r.column v = r.column w from hcolumn] at hv

theorem QuoteFree.ofChars?_whereText (h : q.QuoteFree r) :
    Pieces.ofChars? (q.whereText r none Filter.joinText).toList = some (q.pieces r) := by
  rw [← text_pieces]
  exact Pieces.ofChars?_text h.clean_pieces

/-- What is quoted in a WHERE clause cannot leave its literal: two queries that differ only in the
contents of dates, strings and objects have clauses that differ only in the values of their
literals, and these are the quoted texts. -/
theorem where_keeps_literals (r : DateRules) (q q' : Query) (hshape : q.shape = q'.shape)
    (h : q.QuoteFree r) :
    ∃ p p', Pieces.ofChars? (q.whereText r none Filter.joinText).toList = some p ∧
      Pieces.ofChars? (q'.whereText r none Filter.joinText).toList = some p' ∧
      p.outside = p'.outside ∧ p.values.length = p'.values.length ∧
      p.values = (q.quotedTexts r).map String.toList ∧
      p'.values = (q'.quotedTexts r).map String.toList := by
  have houtside : (q.pieces r).outside = (q'.pieces r).outside := by
    rw [← Pieces.outside_skeleton, skeleton_pieces, hshape, ← skeleton_pieces,
      Pieces.outside_skeleton]
  have hlength : (q.pieces r).values.length = (q'.pieces r).values.length := by
    have hl := congrArg List.length houtside
    rw [Pieces.length_outside, Pieces.length_outside] at hl
    exact Nat.succ.inj hl
  exact ⟨q.pieces r, q'.pieces r, h.ofChars?_whereText, (h.of_shape_eq hshape).ofChars?_whereText,
    houtside, hlength, q.values_pieces r, q'.values_pieces r⟩

def taggedQuery (start stop name tag key : String) : Query where
  filters := [⟨"name", .eq, .string name⟩,
    ⟨"tag", .isIn, .array [.string tag, .object [(key, .null)], .bool true]⟩]
  window := some { mode := .between, startDate := some start, endDate := some stop }

theorem where_keeps_literals_tags :
    let r : DateRules := { today := ⟨2024, 3, 15, by decide, by decide, by decide⟩ }
    let q := taggedQuery "2024-01-01" "2024-01-31" "a" "b" "c"
    let q' := taggedQuery "' or '" "''" "x' OR '1' = '1" "b', 'c')" "it's"
    q.shape = q'.shape ∧ q.QuoteFree r ∧
      ∃ p p', Pieces.ofChars? (q.whereText r none Filter.joinText).toList = some p ∧
        Pieces.ofChars? (q'.whereText r none Filter.joinText).toList = some p' ∧
        p.outside = p'.outside ∧
        p'.values = ["' or '".toList, "''".toList, "x' OR '1' = '1".toList, "b', 'c')".toList,
          "\x7b\"it's\":null\x7d".toList] := by
  intro r q q'
  have hfree : q.QuoteFree r := by
    refine ⟨by decide, fun w hw => ?_⟩
    cases hw
    decide
  obtain ⟨p, p', hp, hp', houtside, -, -, hvalues⟩ := where_keeps_literals r q q' rfl hfree
  exact ⟨rfl, hfree, p, p', hp, hp', houtside, hvalues⟩

end Query

end MetricSql
