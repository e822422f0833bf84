import MetricSql.Metric.Expansion

namespace MetricSql.Registry

variable {r : Registry} {option : AggOption} {m : Metric} {c : Context}

/-- The text remembered for a name, or that of the metric, which is remembered from then on. -/
def recallOrExpand (r : Registry) (option : AggOption) (n : String) (m : Metric) (c : Context) :
    Except Cycle String × Context :=
  match c.remembered? n with
  | some text => (.ok text, c)
  | none =>
    match r.expandEntered option m c with
    | (.error e, c) => (.error e, c)
    | (.ok text, c) => (.ok text, c.remember n text)

theorem expandMetric_eq (m : Metric) (c : Context) :
    r.expandMetric option m c = r.recallOrExpand option m.bizName m c := rfl

theorem expand_field (expr : String) (c : Context) :
    r.expand option expr .field c = (.ok expr, r.useFields (Expr.columnRefs expr).names c) := by
  rw [expand, expandBalanced]

theorem expand_measure (expr : String) (c : Context) :
    r.expand option expr .measure c =
      let texts := r.measureTexts option (Expr.columnRefs expr).names
      (.ok (Expr.rewrite (fun n => texts.lookup n) expr), c.useMeasures (texts.map Prod.fst)) := by
  rw [expand, expandBalanced]

theorem expand_metric (expr : String) (c : Context) :
    r.expand option expr .metric c =
      match r.metricTexts option (Expr.columnRefs expr).names c with
      | (.ok texts, c) => (.ok (Expr.rewrite (fun n => texts.lookup n) expr), c)
      | (.error e, c) => (.error e, c) := by
  rw [expand, expandBalanced, metricTexts]
  rcases r.metricTextsBalanced option (Expr.columnRefs expr).names c with ⟨_ | _, _⟩ <;> rfl

theorem metricTexts_nil (c : Context) : r.metricTexts option [] c = (.ok [], c) := by
  rw [metricTexts, metricTextsBalanced]

theorem metricTexts_cons_none {n : String} (hm : r.findMetric? n = none) (refs : List String)
    (c : Context) : r.metricTexts option (n :: refs) c = r.metricTexts option refs c := by
  rw [metricTexts, metricTextsBalanced]
  split
  · rfl
  · next m k => simp [hm] at k

theorem metricTexts_cons_some {n : String} (hm : r.findMetric? n = some m) (refs : List String)
    (c : Context) :
    r.metricTexts option (n :: refs) c =
      match r.recallOrExpand option n m c with
      | (.error e, c) => (.error e, c)
      | (.ok text, c) =>
        match r.metricTexts option refs c with
        | (.error e, c) => (.error e, c)
        | (.ok texts, c) => (.ok ((n, text) :: texts), c) := by
  rw [metricTexts, metricTextsBalanced]
  split
  · next k => simp [hm] at k
  · next x k =>
    obtain rfl : m = x := Option.some.inj (hm.symm.trans k)
    unfold recallOrExpand expandEntered metricTexts
    cases c.remembered? n with
    | some text =>
      dsimp only
      rcases r.metricTextsBalanced option refs c with ⟨_ | _, _⟩ <;> rfl
    | none =>
      rcases c.entering m fun _ =>
        r.expandBalanced option m.expr m.defineType (c.enter m.bizName) with ⟨_ | text, c', _⟩
      · rfl
      · dsimp only
        rcases r.metricTextsBalanced option refs (c'.remember n text) with ⟨_ | _, _⟩ <;> rfl

theorem expandEntered_of_inProgress (hc : c.inProgress m.bizName = true) :
    r.expandEntered option m c = (.error ⟨m.bizName, c.chain ++ [m.bizName]⟩, c) := by
  rw [expandEntered, Context.entering, dif_pos hc]

theorem expandEntered_of_not_inProgress (hc : ¬c.inProgress m.bizName = true) :
    r.expandEntered option m c =
      ((r.expand option m.expr m.defineType (c.enter m.bizName)).1,
        (r.expand option m.expr m.defineType (c.enter m.bizName)).2.leave) := by
  rw [expandEntered, Context.entering, dif_neg hc]
  rfl

/-- What an expansion enters it leaves again, also when it fails half way. -/
theorem chain_expand (r : Registry) (option : AggOption) (expr : String) (type : DefineType)
    (c : Context) : (r.expand option expr type c).2.chain = c.chain :=
  (r.expandBalanced option expr type c).2.property

theorem chain_expandEntered (r : Registry) (option : AggOption) (m : Metric) (c : Context) :
    (r.expandEntered option m c).2.chain = c.chain :=
  (c.entering m fun _ => r.expandBalanced option m.expr m.defineType (c.enter m.bizName)).2.property

theorem chain_recallOrExpand (r : Registry) (option : AggOption) (n : String) (m : Metric)
    (c : Context) : (r.recallOrExpand option n m c).2.chain = c.chain := by
  rw [recallOrExpand]
  cases c.remembered? n with
  | some text => rfl
  | none =>
    have hchain := r.chain_expandEntered option m c
    rcases he : r.expandEntered option m c with ⟨_ | text, c'⟩
    all_goals
      rw [he] at hchain
      exact hchain

theorem chain_expandMetric (r : Registry) (option : AggOption) (m : Metric) (c : Context) :
    (r.expandMetric option m c).2.chain = c.chain :=
  r.chain_recallOrExpand option m.bizName m c

end MetricSql.Registry
