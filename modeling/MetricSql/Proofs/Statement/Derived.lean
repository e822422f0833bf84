import MetricSql.Proofs.Expansion.Dependencies
import MetricSql.Proofs.Expansion.Session
import MetricSql.Statement

namespace MetricSql

open Relation

namespace Registry

variable {r : Registry} {option : AggOption} {m : Metric} {c c' : Context} {column : String}
  {columns : List String} {done done' : List (String × String)}

theorem derivedMetric?_eq_some :
    r.derivedMetric? column = some m ↔ r.findMetric? column = some m ∧ m.defineType = .metric := by
  simp [derivedMetric?]

def Derives (r : Registry) (columns : List String) (m : Metric) : Prop :=
  ∃ column ∈ columns, r.findMetric? column = some m ∧ m.defineType = .metric

/-- The columns that are `done` have the texts of their metrics, whose sources are all counted. -/
structure Expanded (r : Registry) (option : AggOption) (done : List (String × String))
    (c : Context) : Prop where
  atRest : r.AtRest option c
  covers : r.Covers c
  texts : ∀ column text, done.lookup column = some text →
    ∃ m, r.derivedMetric? column = some m ∧ r.plainMetric option m [] = .ok text ∧
      ∀ u, r.DependsOn m u → c.Has u

theorem expanded_nil (r : Registry) (option : AggOption) : r.Expanded option [] {} :=
  ⟨atRest_empty r option, by simp [Covers, Context.remembered?], by simp⟩

/-- How the expansion of columns ends: all that are derived are added to those already `done`, or
one of them leads to a cycle. -/
inductive ColumnsOutcome (r : Registry) (option : AggOption) (done : List (String × String))
    (columns : List String) (c : Context) :
    Except Cycle (List (String × String)) × Context → Prop
  | ok (texts : List (String × String)) (c' : Context)
      (expanded : r.Expanded option texts c')
      (keeps : ∀ column, (done.lookup column).isSome → (texts.lookup column).isSome)
      (all : ∀ column ∈ columns, (r.derivedMetric? column).isSome → (texts.lookup column).isSome)
      (sound : ∀ u, c'.Has u → c.Has u ∨ ∃ m, r.Derives columns m ∧ r.DependsOn m u) :
      ColumnsOutcome r option done columns c (.ok texts, c')
  | error (e : Cycle) (c' : Context) (m : Metric) (derives : r.Derives columns m)
      (cycle : r.ReachesCycle m) :
      ColumnsOutcome r option done columns c (.error e, c')

theorem Derives.cons (h : r.Derives columns m) (column : String) :
    r.Derives (column :: columns) m := by
  obtain ⟨k, hk, hm⟩ := h
  exact ⟨k, List.mem_cons_of_mem _ hk, hm⟩

theorem derives_head (h : r.derivedMetric? column = some m) (columns : List String) :
    r.Derives (column :: columns) m :=
  ⟨column, List.mem_cons_self, derivedMetric?_eq_some.mp h⟩

theorem ColumnsOutcome.cons {p : Except Cycle (List (String × String)) × Context}
    (hp : r.ColumnsOutcome option done' columns c' p)
    (hdone : ∀ k, (done.lookup k).isSome → (done'.lookup k).isSome)
    (hcolumn : (r.derivedMetric? column).isSome → (done'.lookup column).isSome)
    (hhas : ∀ u, c'.Has u → c.Has u ∨ ∃ m, r.derivedMetric? column = some m ∧ r.DependsOn m u) :
    r.ColumnsOutcome option done (column :: columns) c p := by
  cases hp with
  | ok texts c'' expanded keeps all sound =>
    refine .ok texts c'' expanded (fun k hk => keeps k (hdone k hk)) (fun k hk hm => ?_)
      fun u hu => ?_
    · obtain rfl | hk := List.mem_cons.mp hk
      · exact keeps k (hcolumn hm)
      · exact all k hk hm
    · obtain hu | ⟨m, hm, hmu⟩ := sound u hu
      · exact (hhas u hu).imp_right fun ⟨m, hm, hmu⟩ => ⟨m, derives_head hm columns, hmu⟩
      · exact .inr ⟨m, hm.cons column, hmu⟩
  | error e c'' m derives cycle => exact .error e c'' m (derives.cons column) cycle

theorem Expanded.expandColumns (h : r.Expanded option done c) (columns : List String) :
    r.ColumnsOutcome option done columns c (r.expandColumns option done columns c) := by
  induction columns generalizing done c with
  | nil =>
    exact .ok done c h (fun _ => id) (fun _ hk => absurd hk List.not_mem_nil) fun _ => .inl
  | cons column columns ih =>
    rw [Registry.expandColumns]
    by_cases hdone : (done.lookup column).isSome
    · rw [if_pos hdone]
      exact (ih h).cons (fun _ => id) (fun _ => hdone) fun _ => .inl
    · rw [if_neg hdone]
      cases hm : r.derivedMetric? column with
      | none => exact (ih h).cons (fun _ => id) (by simp [hm]) fun _ => .inl
      | some m =>
        obtain ⟨hfind, -⟩ := derivedMetric?_eq_some.mp hm
        have hbiz := findMetric?_bizName hfind
        have hagrees := h.atRest.expandMetric hfind
        have hrecords : r.Records c (r.expandMetric option m c) (r.DependsOn m) := by
          rw [expandMetric_eq]
          exact (recordsOn r option []).recallOrExpand h.atRest.chain h.covers hbiz
        have hchain := (r.chain_expandMetric option m c).trans h.atRest.chain
        dsimp only
        rcases he : r.expandMetric option m c with ⟨e | text, c'⟩
        all_goals rw [he] at hagrees hrecords hchain
        · exact .error e c' m (derives_head hm columns)
            ((plainMetric_error_iff hbiz).mp ⟨e, hagrees.result.symm⟩)
        · have hnext : r.Expanded option ((column, text) :: done) c' := by
            refine ⟨⟨hchain, hagrees.recalls⟩, hrecords.covers, fun k text' hk => ?_⟩
            obtain ⟨rfl, rfl⟩ | ⟨-, hk⟩ := lookup_cons_eq_some.mp hk
            · exact ⟨m, hm, hagrees.result.symm, hrecords.complete text rfl⟩
            · obtain ⟨x, hx, ht, hu⟩ := h.texts k text' hk
              exact ⟨x, hx, ht, fun u hxu => hrecords.keeps u (hu u hxu)⟩
          refine (ih hnext).cons (fun k hk => ?_) (fun _ => ?_) fun u hu => ?_
          · rw [List.lookup]
            split
            · rfl
            · exact hk
          · simp
          · exact (hrecords.sound u hu).imp_right fun hmu => ⟨m, hm, hmu⟩

/-- What is written for a column: something about its expansion in an empty context when it asks
for a derived metric, and the plain text otherwise. -/
def Writes (r : Registry) (option : AggOption) (column : String) (ofExpansion : String → String)
    (plain item : String) : Prop :=
  (∃ m text, r.findMetric? column = some m ∧ m.defineType = .metric ∧
    (r.expandMetric option m {}).1 = .ok text ∧ item = ofExpansion text) ∨
  ((∀ m, r.findMetric? column = some m → m.defineType ≠ .metric) ∧ item = plain)

theorem Writes.exists_expansion {ofExpansion : String → String} {plain item : String}
    (h : r.Writes option column ofExpansion plain item) (hm : r.findMetric? column = some m)
    (htype : m.defineType = .metric) :
    ∃ text, (r.expandMetric option m {}).1 = .ok text ∧ item = ofExpansion text := by
  obtain ⟨x, text, hx, -, htext, hitem⟩ | ⟨hplain, -⟩ := h
  · obtain rfl : m = x := Option.some.inj (hm.symm.trans hx)
    exact ⟨text, htext, hitem⟩
  · exact absurd htype (hplain m hm)

theorem Writes.eq_plain {ofExpansion : String → String} {plain item : String}
    (h : r.Writes option column ofExpansion plain item)
    (hcolumn : ∀ m, r.findMetric? column = some m → m.defineType ≠ .metric) : item = plain := by
  obtain ⟨m, -, hm, htype, -⟩ | ⟨-, hitem⟩ := h
  · exact absurd htype (hcolumn m hm)
  · exact hitem

theorem Expanded.exists_text (h : r.Expanded option done c)
    (hall : ∀ column ∈ columns, (r.derivedMetric? column).isSome → (done.lookup column).isSome)
    (hm : r.Derives columns m) :
    ∃ text, r.plainMetric option m [] = .ok text ∧ ∀ u, r.DependsOn m u → c.Has u := by
  obtain ⟨column, hcolumn, hderived⟩ := hm
  have hm := derivedMetric?_eq_some.mpr hderived
  obtain ⟨text, ht⟩ := Option.isSome_iff_exists.mp (hall column hcolumn (by rw [hm]; rfl))
  obtain ⟨x, hx, hplain, hhas⟩ := h.texts column text ht
  obtain rfl : m = x := Option.some.inj (hm.symm.trans hx)
  exact ⟨text, hplain, hhas⟩

theorem Derives.exists_findMetric? (h : r.Derives columns m) :
    ∃ column, r.findMetric? column = some m := by
  obtain ⟨column, -, hm, -⟩ := h
  exact ⟨column, hm⟩

theorem exists_reachesCycle_of_error {e : Cycle}
    (he : r.expandColumns option [] columns {} = (.error e, c)) :
    ∃ m, r.Derives columns m ∧ r.ReachesCycle m := by
  have houtcome := (expanded_nil r option).expandColumns columns
  rw [he] at houtcome
  cases houtcome with
  | error _ _ m derives cycle => exact ⟨m, derives, cycle⟩

/-- Columns that were expanded from nothing have all their sources counted, and no others are. -/
theorem expanded_of_ok (he : r.expandColumns option [] columns {} = (.ok done, c)) :
    r.Expanded option done c ∧
      (∀ column ∈ columns, (r.derivedMetric? column).isSome → (done.lookup column).isSome) ∧
      ∀ u, c.Has u ↔ ∃ m, r.Derives columns m ∧ r.DependsOn m u := by
  have houtcome := (expanded_nil r option).expandColumns columns
  rw [he] at houtcome
  cases houtcome with
  | ok _ _ expanded keeps all sound =>
    refine ⟨expanded, all, fun u => ⟨fun hu => ?_, fun ⟨m, hm, hu⟩ => ?_⟩⟩
    · refine (sound u hu).resolve_left ?_
      cases u <;> exact NameSet.not_mem_empty _
    · obtain ⟨-, -, hall⟩ := expanded.exists_text all hm
      exact hall u hu

theorem Expanded.writes (h : r.Expanded option done c)
    (hcolumn : (r.derivedMetric? column).isSome → (done.lookup column).isSome)
    (ofExpansion : String → String) (plain : String) :
    r.Writes option column ofExpansion plain
      (((done.lookup column).map ofExpansion).getD plain) := by
  cases ht : done.lookup column with
  | some text =>
    obtain ⟨m, hm, hplain, -⟩ := h.texts column text ht
    obtain ⟨hfind, htype⟩ := derivedMetric?_eq_some.mp hm
    have hfresh := ((atRest_empty r option).expandMetric hfind).result
    exact .inl ⟨m, text, hfind, htype, hfresh.trans hplain, rfl⟩
  | none =>
    refine .inr ⟨fun m hfind htype => ?_, rfl⟩
    have hsome := hcolumn (by rw [derivedMetric?_eq_some.mpr ⟨hfind, htype⟩]; rfl)
    rw [ht] at hsome
    cases hsome

theorem Expanded.forall₂_writes {α : Type} (h : r.Expanded option done c)
    (hall : ∀ column ∈ columns, (r.derivedMetric? column).isSome → (done.lookup column).isSome)
    (l : List α) (column : α → String) (hl : ∀ x ∈ l, column x ∈ columns)
    (ofExpansion : α → String → String) (plain : α → String) :
    l.Forall₂ (fun x item => r.Writes option (column x) (ofExpansion x) (plain x) item)
      (l.map fun x => ((done.lookup (column x)).map (ofExpansion x)).getD (plain x)) := by
  rw [List.forall₂_map_right_iff, List.forall₂_same]
  exact fun x hx => h.writes (hall _ (hl x hx)) (ofExpansion x) (plain x)

theorem exists_expandColumns_iff (r : Registry) (option : AggOption) (columns : List String) :
    (∃ texts c, r.expandColumns option [] columns {} = (.ok texts, c)) ↔
      ∀ m, r.Derives columns m → ¬r.ReachesCycle m := by
  constructor
  · rintro ⟨texts, c, he⟩ m hm
    obtain ⟨hexpanded, hall, -⟩ := expanded_of_ok he
    obtain ⟨column, hfind⟩ := hm.exists_findMetric?
    obtain ⟨text, ht, -⟩ := hexpanded.exists_text hall hm
    exact not_reachesCycle_of_ok (findMetric?_bizName hfind) ht
  · intro hacyclic
    rcases he : r.expandColumns option [] columns {} with ⟨e | texts, c⟩
    · obtain ⟨m, hm, hcycle⟩ := exists_reachesCycle_of_error he
      exact absurd hcycle (hacyclic m hm)
    · exact ⟨texts, c, rfl⟩

end Registry

def Query.columns (q : Query) : List String :=
  q.aggregators.map (·.column) ++ q.orders.map (·.column)

namespace Compiler

open Registry

variable {k : Compiler} {r : Registry} {q : Query} {a : Option Availability} {s : Statement}

theorem exists_compile_iff :
    (∃ s, k.compile r q a = .ok s) ↔ ∀ m, r.Derives q.columns m → ¬r.ReachesCycle m := by
  rw [← exists_expandColumns_iff r k.aggOption]
  simp only [compile]
  rw [← Query.columns]
  rcases r.expandColumns k.aggOption [] q.columns {} with ⟨e | texts, c⟩ <;> simp

theorem compile_eq_ok (hs : k.compile r q a = .ok s) :
    ∃ texts c, r.expandColumns k.aggOption [] q.columns {} = (.ok texts, c) ∧
      s.select = q.selectText (fun n => (texts.lookup n).map (· ++ " AS " ++ n)) ∧
      s.orderBy = q.orderByText (fun n => texts.lookup n) ∧
      s.whereClause = q.whereText k.rules a k.filterText ∧ s.groupBy = q.groupByText ∧
      s.limit = q.limitText ∧ s.range = q.effectiveRange k.rules a ∧
      s.measures = c.measures ∧ s.dimensions = c.dimensions := by
  simp only [compile] at hs
  rw [← Query.columns] at hs
  rcases he : r.expandColumns k.aggOption [] q.columns {} with ⟨e | texts, c⟩
  all_goals rw [he] at hs
  · cases hs
  · cases hs
    exact ⟨texts, c, rfl, rfl, rfl, rfl, rfl, rfl, rfl, rfl, rfl⟩

theorem sources_of_compile (hs : k.compile r q a = .ok s) :
    (∀ n, n ∈ s.measures ↔ ∃ m, r.Derives q.columns m ∧ r.DependsOn m (.measure n)) ∧
      ∀ n, n ∈ s.dimensions ↔ ∃ m, r.Derives q.columns m ∧ r.DependsOn m (.dimension n) := by
  obtain ⟨texts, c, he, -, -, -, -, -, -, hmeasures, hdimensions⟩ := compile_eq_ok hs
  obtain ⟨-, -, hhas⟩ := expanded_of_ok he
  rw [hmeasures, hdimensions]
  exact ⟨fun n => hhas (.measure n), fun n => hhas (.dimension n)⟩

/-- Compilation fails only for cycles. A statement has the expansions of its derived columns, and
exactly the measures and the dimensions that these depend on. -/
theorem compile_derived (k : Compiler) (r : Registry) (q : Query) (a : Option Availability) :
    ((∃ s, k.compile r q a = .ok s) ↔ ∀ m, r.Derives q.columns m → ¬r.ReachesCycle m) ∧
    ∀ s, k.compile r q a = .ok s →
      (∃ items, s.select = ",".intercalate (q.groups ++ items) ∧
        q.aggregators.Forall₂ (fun g item =>
          r.Writes k.aggOption g.column (· ++ " AS " ++ g.column) g.text item) items) ∧
      (∃ items, s.orderBy = (if q.orders = [] then "" else "order by " ++ ",".intercalate items) ∧
        q.orders.Forall₂ (fun o item => r.Writes k.aggOption o.column
          (· ++ " " ++ o.direction.text) (o.column ++ " " ++ o.direction.text) item) items) ∧
      (∀ n, n ∈ s.measures ↔ ∃ m, r.Derives q.columns m ∧ r.DependsOn m (.measure n)) ∧
      ∀ n, n ∈ s.dimensions ↔ ∃ m, r.Derives q.columns m ∧ r.DependsOn m (.dimension n) := by
  refine ⟨exists_compile_iff, fun s hs => ?_⟩
  obtain ⟨texts, c, he, hselect, horder, -⟩ := compile_eq_ok hs
  obtain ⟨hexpanded, hall, -⟩ := expanded_of_ok he
  refine ⟨⟨_, hselect, ?_⟩, ⟨_, horder, ?_⟩, sources_of_compile hs⟩
  · exact hexpanded.forall₂_writes hall q.aggregators (·.column)
      (fun g hg => List.mem_append_left _ (List.mem_map_of_mem hg)) _ _
  · have hitem (o : Order) : (texts.lookup o.column).getD o.column ++ " " ++ o.direction.text =
        ((texts.lookup o.column).map (· ++ " " ++ o.direction.text)).getD
          (o.column ++ " " ++ o.direction.text) := by
      cases texts.lookup o.column <;> rfl
    simp only [hitem]
    exact hexpanded.forall₂_writes hall q.orders (·.column)
      (fun o ho => List.mem_append_right _ (List.mem_map_of_mem ho)) _ _

def revenue : Metric := { bizName := "revenue", expr := "amount" }

def spread : Metric := { bizName := "spread", defineType := .field, expr := "city - price" }

def margin : Metric := { bizName := "margin", defineType := .metric, expr := "Revenue - spread" }

def marginRegistry : Registry where
  metrics := [revenue, spread, margin]
  measures := [{ bizName := "amount", agg := .sum }]
  dimensions := [{ bizName := "city" }]
  fields := .ofList ["price"]

def mixedQuery : Query where
  groups := ["city"]
  aggregators := [⟨.sum, "Margin", []⟩, ⟨.max, "price", []⟩]
  orders := [⟨"margin", .desc⟩, ⟨"revenue", .asc⟩]

theorem columnRefs_margin : Expr.columnRefs margin.expr = .ofList ["Revenue", "spread"] := by cbv

theorem margin_refers_revenue : marginRegistry.Refers margin revenue :=
  ⟨rfl, "Revenue", by simp [columnRefs_margin], by decide⟩

theorem margin_refers_spread : marginRegistry.Refers margin spread :=
  ⟨rfl, "spread", by simp [columnRefs_margin], by decide⟩

theorem margin_not_reachesCycle : ¬marginRegistry.ReachesCycle margin := by
  refine not_reachesCycle fun x hx => not_reachesCycle fun y hy => ?_
  obtain ⟨-, n, hn, hx⟩ := hx
  rw [columnRefs_margin, NameSet.mem_ofList] at hn
  have hleaf : ∀ n ∈ ["Revenue", "spread"], ∀ x ∈ marginRegistry.findMetric? n,
      x.defineType ≠ .metric := by decide
  exact absurd hy.1 (hleaf n hn x hx)

theorem eq_margin_of_derives {m : Metric}
    (h : marginRegistry.Derives mixedQuery.columns m) : m = margin := by
  have hderived : ∀ column ∈ mixedQuery.columns, ∀ m ∈ marginRegistry.findMetric? column,
      m.defineType = .metric → m = margin := by decide
  obtain ⟨column, hcolumn, hfind, htype⟩ := h
  exact hderived column hcolumn m hfind htype

theorem compile_derived_margin :
    let k : Compiler := { rules := { today := ⟨2024, 3, 15, by decide, by decide, by decide⟩ } }
    ∃ s text, k.compile marginRegistry mixedQuery none = .ok s ∧
      (marginRegistry.expandMetric .default margin {}).1 = .ok text ∧
      s.select = "city" ++ "," ++ (text ++ " AS " ++ "Margin") ++ "," ++ "max( price ) AS price " ∧
      s.orderBy = "order by " ++ (text ++ " " ++ "DESC" ++ "," ++ "revenue ASC") ∧
      "amount" ∈ s.measures ∧ "price" ∈ s.measures ∧ "city" ∈ s.dimensions := by
  intro k
  have hrevenue : Expr.columnRefs revenue.expr = .ofList ["amount"] := by cbv
  have hspread : Expr.columnRefs spread.expr = .ofList ["city", "price"] := by cbv
  have hmargin : marginRegistry.Derives mixedQuery.columns margin :=
    ⟨"margin", by decide, by decide, rfl⟩
  obtain ⟨s, hs⟩ := (compile_derived k marginRegistry mixedQuery none).1.mpr fun m hm =>
    eq_margin_of_derives hm ▸ margin_not_reachesCycle
  obtain ⟨⟨items, hselect, hitems⟩, ⟨targets, horder, htargets⟩, hmeasures, hdimensions⟩ :=
    (compile_derived k marginRegistry mixedQuery none).2 s hs
  obtain ⟨_, _, hmarginItem, hrest, rfl⟩ := List.forall₂_cons_left_iff.mp hitems
  obtain ⟨_, _, hpriceItem, hnil, rfl⟩ := List.forall₂_cons_left_iff.mp hrest
  obtain rfl := List.forall₂_nil_left_iff.mp hnil
  obtain ⟨_, _, hmarginTarget, hrest, rfl⟩ := List.forall₂_cons_left_iff.mp htargets
  obtain ⟨_, _, hrevenueTarget, hnil, rfl⟩ := List.forall₂_cons_left_iff.mp hrest
  obtain rfl := List.forall₂_nil_left_iff.mp hnil
  have hfind : ∀ column ∈ ["Margin", "margin"],
      marginRegistry.findMetric? column = some margin := by decide
  obtain ⟨text, htext, rfl⟩ := hmarginItem.exists_expansion (hfind _ (by simp)) rfl
  obtain ⟨text', htext', rfl⟩ := hmarginTarget.exists_expansion (hfind _ (by simp)) rfl
  obtain rfl : text = text' := Except.ok.inj (htext.symm.trans htext')
  obtain rfl := hpriceItem.eq_plain (by decide)
  obtain rfl := hrevenueTarget.eq_plain (by decide)
  have hprice : (⟨.max, "price", []⟩ : Aggregator).text = "max( price ) AS price " := by decide
  refine ⟨s, text, hs, htext, by rw [hselect, hprice]; rfl, by rw [horder]; rfl,
    (hmeasures _).mpr ⟨margin, hmargin, ?_⟩, (hmeasures _).mpr ⟨margin, hmargin, ?_⟩,
    (hdimensions _).mpr ⟨margin, hmargin, ?_⟩⟩
  · exact ⟨revenue, .single margin_refers_revenue, by simp [hrevenue], .inl ⟨rfl, rfl⟩⟩
  · exact ⟨spread, .single margin_refers_spread, by simp [hspread], .inr ⟨rfl, rfl, rfl⟩⟩
  · exact ⟨spread, .single margin_refers_spread, by simp [hspread], rfl, rfl⟩

end Compiler

end MetricSql
