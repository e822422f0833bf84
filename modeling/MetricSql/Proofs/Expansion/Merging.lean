import MetricSql.Proofs.Expansion.Retention

namespace MetricSql.Registry

open Text

variable {r r' : Registry} {d : Document} {option : AggOption} {m : Metric} {c : Context}
  {chain names : List String} {n : String}

structure AgreeAt (r r' : Registry) (n : String) : Prop where
  metric : r'.findMetric? n = r.findMetric? n
  measure : r'.findMeasure? n = r.findMeasure? n
  dimension : r'.findDimension? n = r.findDimension? n
  field : r'.hasField n = r.hasField n

def AgreeInMetrics (r r' : Registry) : Prop :=
  ∀ m ∈ r.metrics, ∀ n ∈ Expr.columnRefs m.expr, r.AgreeAt r' n

theorem useFields_congr (h : ∀ n ∈ names, r.AgreeAt r' n) (c : Context) :
    r'.useFields names c = r.useFields names c := by
  have hfields : names.filter (r'.hasField ·) = names.filter (r.hasField ·) :=
    List.filter_congr fun n hn => (h n hn).field
  have hdimensions : (names.filter (r.hasField ·)).filter (fun n => (r'.findDimension? n).isSome) =
      (names.filter (r.hasField ·)).filter (fun n => (r.findDimension? n).isSome) :=
    List.filter_congr fun n hn => by rw [(h n (List.mem_of_mem_filter hn)).dimension]
  have hmeasures : (names.filter (r.hasField ·)).filter (fun n => !(r'.findDimension? n).isSome) =
      (names.filter (r.hasField ·)).filter (fun n => !(r.findDimension? n).isSome) :=
    List.filter_congr fun n hn => by rw [(h n (List.mem_of_mem_filter hn)).dimension]
  rw [useFields, useFields, hfields, hdimensions, hmeasures]

theorem measureTexts_congr (h : ∀ n ∈ names, r.AgreeAt r' n) :
    r'.measureTexts option names = r.measureTexts option names :=
  List.filterMap_congr fun n hn => by rw [(h n hn).measure]

def SameOn (r r' : Registry) (option : AggOption) (chain : List String) : Prop :=
  ∀ c : Context, c.chain = chain → ∀ m, r.findMetric? m.bizName = some m →
    r'.expandEntered option m c = r.expandEntered option m c

theorem SameOn.recallOrExpand (hs : r.SameOn r' option chain) (hc : c.chain = chain)
    (hm : r.findMetric? n = some m) :
    r'.recallOrExpand option n m c = r.recallOrExpand option n m c := by
  rw [Registry.recallOrExpand, Registry.recallOrExpand, hs c hc m (findMetric?_bizName hm)]

theorem SameOn.metricTexts (hs : r.SameOn r' option chain) (hc : c.chain = chain)
    (h : ∀ n ∈ names, r.AgreeAt r' n) :
    r'.metricTexts option names c = r.metricTexts option names c := by
  induction names generalizing c with
  | nil => rw [metricTexts_nil, metricTexts_nil]
  | cons n names ih =>
    have hnames := fun k hk => h k (List.mem_cons_of_mem n hk)
    have hn := (h n List.mem_cons_self).metric
    cases hm : r.findMetric? n with
    | none =>
      rw [metricTexts_cons_none hm, metricTexts_cons_none (hn.trans hm)]
      exact ih hc hnames
    | some m =>
      have hchain := r.chain_recallOrExpand option n m c
      rw [metricTexts_cons_some hm, metricTexts_cons_some (hn.trans hm), hs.recallOrExpand hc hm]
      rcases he : r.recallOrExpand option n m c with ⟨e | text, c'⟩
      · rfl
      · rw [he] at hchain
        dsimp only
        rw [ih (hchain.trans hc) hnames]

theorem SameOn.expand (hs : r.SameOn r' option chain) (hc : c.chain = chain) {expr : String}
    (h : ∀ n ∈ Expr.columnRefs expr, r.AgreeAt r' n) (type : DefineType) :
    r'.expand option expr type c = r.expand option expr type c := by
  cases type with
  | field => rw [expand_field, expand_field, useFields_congr h]
  | measure => rw [expand_measure, expand_measure, measureTexts_congr h]
  | metric => rw [expand_metric, expand_metric, hs.metricTexts hc h]

/-- A metric that is expanded is one of the first registry, and so are those that it leads to. -/
theorem AgreeInMetrics.sameOn (h : r.AgreeInMetrics r') (option : AggOption)
    (chain : List String) : r.SameOn r' option chain := by
  induction chain using chain_induction (r := r) with
  | step chain ih =>
    intro c hc m hm
    subst hc
    by_cases hp : c.inProgress m.bizName = true
    · rw [expandEntered_of_inProgress hp, expandEntered_of_inProgress hp]
    · rw [expandEntered_of_not_inProgress hp, expandEntered_of_not_inProgress hp,
        (ih _ m hm hp).expand rfl (h m (mem_of_findMetric? hm))]

/-- The document defines nothing under the name, unless it is a metric where the name already finds
another one. -/
structure Unrelated (r : Registry) (d : Document) (n : String) : Prop where
  metric : ∀ m ∈ d.metrics, sameName m.bizName n = true → (r.findMetric? n).isSome
  measure : ∀ m ∈ d.measures, m.bizName ≠ n
  dimension : ∀ x ∈ d.dimensions, x.bizName ≠ n
  field : n ∉ d.fields

theorem find?_putMeasure (ms : List Measure) (x : Measure) (n : String) :
    (putMeasure ms x).find? (·.bizName == n) =
      ([x].find? (·.bizName == n)).or (ms.find? (·.bizName == n)) := by
  by_cases hx : x.bizName = n
  · rw [putMeasure, List.find?_cons_of_pos (by simpa using hx),
      List.find?_cons_of_pos (by simpa using hx), Option.some_or]
  · have hkept (a : Measure) :
        (a.bizName != x.bizName) = true ∧ (a.bizName == n) = true ↔ (a.bizName == n) = true := by
      simp only [bne_iff_ne, beq_iff_eq, and_iff_right_iff_imp]
      rintro rfl
      exact Ne.symm hx
    rw [putMeasure, List.find?_cons_of_neg (by simpa using hx), List.find?_filter,
      List.find?_cons_of_neg (by simpa using hx), List.find?_nil, Option.none_or]
    simp only [hkept, Bool.decide_coe]

theorem find?_foldl_putMeasure (ms added : List Measure) (n : String) :
    (added.foldl putMeasure ms).find? (·.bizName == n) =
      (added.reverse.find? (·.bizName == n)).or (ms.find? (·.bizName == n)) := by
  induction added generalizing ms with
  | nil => rfl
  | cons x added ih =>
    rw [List.foldl_cons, ih, find?_putMeasure, List.reverse_cons, List.find?_append,
      Option.or_assoc]

theorem Unrelated.agreeAt_merge (h : r.Unrelated d n) : r.AgreeAt (r.merge d) n := by
  have hmetric : (r.merge d).findMetric? n = r.findMetric? n := by
    rw [findMetric?, findMetric?, merge, List.find?_append]
    cases hm : r.metrics.find? fun m => sameName m.bizName n with
    | some m => rfl
    | none =>
      refine List.find?_eq_none.mpr fun m hmem hsame => ?_
      have hfound := h.metric m hmem hsame
      rw [findMetric?, hm] at hfound
      cases hfound
  have hmeasure : (r.merge d).findMeasure? n = r.findMeasure? n := by
    have hnone : d.measures.reverse.find? (·.bizName == n) = none :=
      List.find?_eq_none.mpr fun x hx => by simpa using h.measure x (List.mem_reverse.1 hx)
    rw [findMeasure?, findMeasure?, merge, find?_foldl_putMeasure, hnone, Option.none_or]
  have hdimension : (r.merge d).findDimension? n = r.findDimension? n := by
    have hnone : d.dimensions.find? (·.bizName == n) = none :=
      List.find?_eq_none.mpr fun x hx => by simpa using h.dimension x hx
    rw [findDimension?, findDimension?, merge, List.find?_append, hnone, Option.or_none]
  have hfield : (r.merge d).fields.contains n = r.fields.contains n := by
    rw [Bool.eq_iff_iff, NameSet.contains_iff, NameSet.contains_iff, merge, NameSet.mem_insertAll,
      or_iff_left h.field]
  exact ⟨hmetric, hmeasure, hdimension, by rw [hasField, hasField, hfield, hmeasure, hdimension]⟩

/-- The names that the expansion of an expression can come across. -/
def Names (r : Registry) (expr : String) (n : String) : Prop :=
  n ∈ Expr.columnRefs expr ∨ ∃ m ∈ r.metrics, n ∈ Expr.columnRefs m.expr

/-- A document that defines none of the names in an expression and in the metrics does not change
what the expression expands to, nor the report of a cycle, nor what is remembered and counted. -/
theorem expand_merge_unrelated {expr : String} (h : ∀ n, r.Names expr n → r.Unrelated d n)
    (option : AggOption) (type : DefineType) (c : Context) :
    (r.merge d).expand option expr type c = r.expand option expr type c := by
  have hmetrics : r.AgreeInMetrics (r.merge d) := fun m hm n hn =>
    (h n (.inr ⟨m, hm, hn⟩)).agreeAt_merge
  exact (hmetrics.sameOn option c.chain).expand rfl (fun n hn => (h n (.inl hn)).agreeAt_merge) type

def besideStock : Document where
  metrics := [{ bizName := "STOCK", expr := "Amount" }, { bizName := "sales", expr := "sold" }]
  measures := [{ bizName := "Amount", agg := .max }]
  dimensions := [{ bizName := "city" }]
  fields := ["price"]

theorem expand_merge_unrelated_stock :
    (∀ n, stockRegistry.Names "Stock * 2" n → stockRegistry.Unrelated besideStock n) ∧
      (stockRegistry.expand .default "Stock * 2" .metric {}).1 = .ok "sum(amount) * 2" ∧
      (stockRegistry.merge besideStock).expand .default "Stock * 2" .metric {} =
        stockRegistry.expand .default "Stock * 2" .metric {} := by
  have hexpr : (Expr.columnRefs "Stock * 2").names = ["Stock"] := by cbv
  have hstock : (Expr.columnRefs stock.expr).names = ["amount"] := by cbv
  have hendless : (Expr.columnRefs endlessStock.expr).names = ["Stock", "endless"] := by cbv
  have hunrelated : ∀ n, stockRegistry.Names "Stock * 2" n →
      stockRegistry.Unrelated besideStock n := by
    intro n hn
    have hcases : n = "Stock" ∨ n = "amount" ∨ n = "endless" := by
      simp only [Names, stockRegistry, List.exists_mem_cons_iff, NameSet.mem_def, hexpr, hstock,
        hendless] at hn
      grind
    obtain rfl | rfl | rfl := hcases <;> exact ⟨by decide, by decide, by decide, by decide⟩
  have hfind : stockRegistry.findMetric? "Stock" = some stock := by decide
  have hrewrite : Expr.rewrite (fun n => [("Stock", "sum(amount)")].lookup n) "Stock * 2" =
      "sum(amount) * 2" := by cbv
  have hrecall : stockRegistry.recallOrExpand .default "Stock" stock {} = (.ok "sum(amount)",
      (({} : Context).useMeasures ["amount"]).remember "Stock" "sum(amount)") := by
    rw [recallOrExpand, expandEntered_stock (by decide)]
    rfl
  refine ⟨hunrelated, ?_, expand_merge_unrelated hunrelated .default .metric {}⟩
  rw [expand_metric, hexpr, metricTexts_cons_some hfind, hrecall]
  dsimp only
  rw [metricTexts_nil]
  exact congrArg Except.ok hrewrite

end MetricSql.Registry
