import MetricSql.Proofs.Expansion.Dependencies
import MetricSql.Proofs.Expansion.Session

namespace MetricSql

variable {c c' : Context}

namespace Context

def Retains (c c' : Context) : Prop := c.memo <:+ c'.memo

theorem retains_remember (c : Context) (n text : String) : c.Retains (c.remember n text) :=
  List.suffix_cons _ _

theorem Retains.isSome_remembered? (h : c.Retains c') {n text : String}
    (hn : c.remembered? n = some text) : ∃ text', c'.remembered? n = some text' := by
  obtain ⟨added, hadded⟩ := h
  rw [remembered?, ← hadded, List.lookup_append]
  cases added.lookup n with
  | some text' => exact ⟨text', rfl⟩
  | none => exact ⟨text, hn⟩

end Context

namespace Registry

variable {r : Registry} {option : AggOption} {m : Metric} {chain : List String}

def RetainsOn (r : Registry) (option : AggOption) (chain : List String) : Prop :=
  ∀ c : Context, c.chain = chain → ∀ m, r.findMetric? m.bizName = some m →
    c.Retains (r.expandEntered option m c).2

theorem RetainsOn.recallOrExpand (hr : r.RetainsOn option chain) (hc : c.chain = chain)
    {n : String} (hm : r.findMetric? n = some m) :
    c.Retains (r.recallOrExpand option n m c).2 := by
  rw [Registry.recallOrExpand]
  cases c.remembered? n with
  | some text => exact List.suffix_rfl
  | none =>
    have hp := hr c hc m (findMetric?_bizName hm)
    rcases he : r.expandEntered option m c with ⟨e | text, c'⟩
    all_goals rw [he] at hp
    · exact hp
    · exact hp.trans (c'.retains_remember n text)

theorem RetainsOn.metricTexts (hr : r.RetainsOn option chain) (hc : c.chain = chain)
    (names : List String) : c.Retains (r.metricTexts option names c).2 := by
  induction names generalizing c with
  | nil =>
    rw [metricTexts_nil]
    exact List.suffix_rfl
  | cons n names ih =>
    cases hm : r.findMetric? n with
    | none =>
      rw [metricTexts_cons_none hm]
      exact ih hc
    | some m =>
      have hp := hr.recallOrExpand hc hm
      have hchain := r.chain_recallOrExpand option n m c
      rw [metricTexts_cons_some hm]
      rcases he : r.recallOrExpand option n m c with ⟨e | text, c'⟩
      all_goals rw [he] at hp hchain
      · exact hp
      · have hq := hp.trans (ih (hchain.trans hc))
        dsimp only
        rcases hrest : r.metricTexts option names c' with ⟨e | texts, c''⟩
        all_goals
          rw [hrest] at hq
          exact hq

theorem RetainsOn.expand (hr : r.RetainsOn option chain) (hc : c.chain = chain) (expr : String)
    (type : DefineType) : c.Retains (r.expand option expr type c).2 := by
  cases type with
  | field =>
    rw [expand_field]
    exact List.suffix_rfl
  | measure =>
    rw [expand_measure]
    exact List.suffix_rfl
  | metric =>
    have hs := hr.metricTexts hc (Expr.columnRefs expr).names
    rw [expand_metric]
    rcases hp : r.metricTexts option (Expr.columnRefs expr).names c with ⟨e | texts, c'⟩
    all_goals
      rw [hp] at hs
      exact hs

/-- Also a failure, which leaves an expansion half way, forgets nothing. -/
theorem retainsOn (r : Registry) (option : AggOption) (chain : List String) :
    r.RetainsOn option chain := by
  -- Below a metric that is not in progress the chain is longer by it, and what is shown of longer
  -- chains can be used.
  induction chain using chain_induction (r := r) with
  | step chain ih =>
    intro c hc m hm
    subst hc
    by_cases hp : c.inProgress m.bizName = true
    · rw [expandEntered_of_inProgress hp]
      exact List.suffix_rfl
    · rw [expandEntered_of_not_inProgress hp]
      exact (ih _ m hm hp).expand (c := c.enter m.bizName) rfl m.expr m.defineType

/-- A memory that can be trusted before and after is only added to, since there is one text that
can be remembered for a name. -/
theorem Recalls.remembered?_of_retains (h : r.Recalls option c) (h' : r.Recalls option c')
    (hc : c.Retains c') {n text : String} (hn : c.remembered? n = some text) :
    c'.remembered? n = some text := by
  obtain ⟨text', hn'⟩ := hc.isSome_remembered? hn
  obtain ⟨m, hm, ht⟩ := h n text hn
  obtain ⟨m', hm', ht'⟩ := h' n text' hn'
  obtain rfl : m = m' := Option.some.inj (hm.symm.trans hm')
  obtain rfl : text = text' := Except.ok.inj (ht.symm.trans ht')
  exact hn'

theorem plainExpand_nil_of_ok {expr text : String} {type : DefineType}
    (h : r.plainExpand option expr type chain = .ok text) :
    r.plainExpand option expr type [] = .ok text := by
  cases h' : r.plainExpand option expr type [] with
  | error e =>
    obtain ⟨rfl, m, hm, he⟩ := plainExpand_error h'
    obtain ⟨text', ht⟩ := plainExpand_ok h hm
    obtain ⟨n, -, hn⟩ := hm
    have hbiz := findMetric?_bizName hn
    exact absurd (reachesCycle_of_error hbiz (leadsTo_nil r m) he) (not_reachesCycle_of_ok hbiz ht)
  | ok text' =>
    rw [plainExpand_unique h h' fun n m hm text text' ht ht' =>
      plainMetric_unique (findMetric?_bizName hm) ht ht']

def StepDependsOn (r : Registry) : Step → Source → Prop
  | .metric name, u => ∃ m, r.findMetric? name = some m ∧ r.DependsOn m u
  | .expr text type, u => r.ExprDependsOn text type u

structure Settled (r : Registry) (option : AggOption) (c : Context) : Prop where
  atRest : r.AtRest option c
  covers : r.Covers c

theorem settled_empty (r : Registry) (option : AggOption) : r.Settled option {} :=
  ⟨atRest_empty r option, by simp [Covers, Context.remembered?]⟩

theorem Settled.remembered? (h : r.Settled option c) {n text : String}
    (hn : c.remembered? n = some text) :
    ∃ m, r.findMetric? n = some m ∧ ¬r.ReachesCycle m ∧
      (r.expand option m.expr m.defineType {}).1 = .ok text := by
  obtain ⟨m, hm, ht⟩ := h.atRest.recalls n text hn
  refine ⟨m, hm, not_reachesCycle_of_ok (findMetric?_bizName hm) ht, ?_⟩
  rw [((atRest_empty r option).expand m.expr m.defineType).result]
  rw [plainMetric_of_not_onChain (not_onChain_of_ok ht)] at ht
  exact plainExpand_nil_of_ok ht

theorem Settled.runStep (h : r.Settled option c) (s : Step) :
    r.Settled option (r.runStep option s c).2 ∧ c.Retains (r.runStep option s c).2 ∧
      (∀ u, c.Has u → (r.runStep option s c).2.Has u) ∧
      ∀ text, (r.runStep option s c).1 = some (.ok text) →
        ∀ u, r.StepDependsOn s u → (r.runStep option s c).2.Has u := by
  have hrest := (h.atRest.runStep s).2
  cases s with
  | metric name =>
    cases hm : r.findMetric? name with
    | none =>
      simp only [Registry.runStep, hm]
      refine ⟨h, List.suffix_rfl, fun _ => id, fun text ht => ?_⟩
      cases ht
    | some m =>
      have hbiz := findMetric?_bizName hm
      have hp : r.Records c (r.expandMetric option m c) (r.DependsOn m) := by
        rw [expandMetric_eq]
        exact (recordsOn r option []).recallOrExpand h.atRest.chain h.covers hbiz
      have hretains : c.Retains (r.expandMetric option m c).2 := by
        rw [expandMetric_eq]
        exact (retainsOn r option []).recallOrExpand h.atRest.chain hbiz
      simp only [Registry.runStep, hm] at hrest ⊢
      refine ⟨⟨hrest, hp.covers⟩, hretains, hp.keeps, ?_⟩
      rintro text ht u ⟨x, hx, hu⟩
      obtain rfl : m = x := Option.some.inj (hm.symm.trans hx)
      exact hp.complete text (Option.some.inj ht) u hu
  | expr text type =>
    have hp := (recordsOn r option []).expand h.atRest.chain h.covers text type
    exact ⟨⟨hrest, hp.covers⟩, (retainsOn r option []).expand h.atRest.chain text type, hp.keeps,
      fun text ht => hp.complete text (Option.some.inj ht)⟩

theorem Settled.run (h : r.Settled option c) (steps : List Step) :
    r.Settled option (r.run option steps c).2 := by
  induction steps generalizing c with
  | nil => exact h
  | cons s steps ih => exact ih (h.runStep s).1

/-- What holds after every step of every run, whether the step fails or not. Nothing is in progress,
and what is remembered for a name is the text of the definition of its metric, which is on no cycle.
The memory and the sources that are counted have only been added to, and a step that succeeds has
all the sources counted on which it depends. -/
theorem run_keeps_context (r : Registry) (option : AggOption) (steps : List Step) (s : Step) :
    let c := (r.run option steps {}).2
    let p := r.runStep option s c
    p.2.chain = [] ∧
    (∀ n text, p.2.remembered? n = some text →
      ∃ m, r.findMetric? n = some m ∧ ¬r.ReachesCycle m ∧
        (r.expand option m.expr m.defineType {}).1 = .ok text) ∧
    (∀ n text, c.remembered? n = some text → p.2.remembered? n = some text) ∧
    ((∀ n ∈ c.measures, n ∈ p.2.measures) ∧ ∀ n ∈ c.dimensions, n ∈ p.2.dimensions) ∧
    ∀ text, p.1 = some (.ok text) →
      (∀ n, r.StepDependsOn s (.measure n) → n ∈ p.2.measures) ∧
      ∀ n, r.StepDependsOn s (.dimension n) → n ∈ p.2.dimensions := by
  intro c p
  have hc := (settled_empty r option).run steps
  obtain ⟨hp, hretains, hkeeps, hcounts⟩ := hc.runStep s
  exact ⟨hp.atRest.chain, fun n text => hp.remembered?,
    fun n text => hc.atRest.recalls.remembered?_of_retains hp.atRest.recalls hretains,
    ⟨fun n => hkeeps (.measure n), fun n => hkeeps (.dimension n)⟩,
    fun text ht => ⟨fun n => hcounts text ht (.measure n), fun n => hcounts text ht (.dimension n)⟩⟩

def stock : Metric := { bizName := "stock", expr := "amount" }

def endlessStock : Metric :=
  { bizName := "endless", defineType := .metric, expr := "Stock - endless" }

def stockRegistry : Registry where
  metrics := [stock, endlessStock]
  measures := [{ bizName := "amount", agg := .sum }]

theorem expandEntered_stock (hc : ¬c.inProgress stock.bizName = true) :
    stockRegistry.expandEntered .default stock c =
      (.ok "sum(amount)", c.useMeasures ["amount"]) := by
  have htexts : stockRegistry.measureTexts .default (Expr.columnRefs stock.expr).names =
      [("amount", "sum(amount)")] := by cbv
  have hrewrite : Expr.rewrite (fun n => [("amount", "sum(amount)")].lookup n) stock.expr =
      "sum(amount)" := by cbv
  rw [expandEntered_of_not_inProgress hc, show stock.defineType = .measure from rfl,
    expand_measure, htexts]
  simp only [hrewrite]
  simp [Context.leave, Context.enter, Context.useMeasures]

theorem expandMetric_endlessStock :
    stockRegistry.expandMetric .default endlessStock {} =
      (.error ⟨"endless", ["endless", "endless"]⟩,
        { memo := [("Stock", "sum(amount)")], measures := .ofList ["amount"] }) := by
  have hnames : (Expr.columnRefs endlessStock.expr).names = ["Stock", "endless"] := by cbv
  have hstock : stockRegistry.findMetric? "Stock" = some stock := by decide
  have hendless : stockRegistry.findMetric? "endless" = some endlessStock := by decide
  have hrecall : stockRegistry.recallOrExpand .default "Stock" stock
      (({} : Context).enter endlessStock.bizName) = (.ok "sum(amount)",
        { memo := [("Stock", "sum(amount)")], measures := .ofList ["amount"]
          chain := ["endless"] }) := by
    rw [recallOrExpand, expandEntered_stock (by decide)]
    rfl
  have hexpand : stockRegistry.expand .default endlessStock.expr endlessStock.defineType
      (({} : Context).enter endlessStock.bizName) = (.error ⟨"endless", ["endless", "endless"]⟩,
        { memo := [("Stock", "sum(amount)")], measures := .ofList ["amount"]
          chain := ["endless"] }) := by
    rw [show endlessStock.defineType = .metric from rfl, expand_metric, hnames,
      metricTexts_cons_some hstock, hrecall]
    dsimp only
    rw [metricTexts_cons_some hendless]
    rfl
  rw [expandMetric_eq, recallOrExpand, expandEntered_of_not_inProgress (by decide), hexpand]
  rfl

theorem run_keeps_context_endlessStock :
    let c := (stockRegistry.run .default [.metric "Endless"] {}).2
    let p := stockRegistry.runStep .default (.expr "Stock * 2" .metric) c
    c.remembered? "Stock" = some "sum(amount)" ∧ p.1 = some (.ok "sum(amount) * 2") ∧
      p.2.chain = [] ∧ p.2.remembered? "Stock" = some "sum(amount)" ∧ "amount" ∈ p.2.measures := by
  intro c p
  have hc : c = { memo := [("Stock", "sum(amount)")], measures := .ofList ["amount"] } := by
    have hfind : stockRegistry.findMetric? "Endless" = some endlessStock := by decide
    simp only [c, run, runStep, hfind, expandMetric_endlessStock]
  have hremembered : c.remembered? "Stock" = some "sum(amount)" := by rw [hc]; rfl
  have hnames : (Expr.columnRefs "Stock * 2").names = ["Stock"] := by cbv
  have hstock : stockRegistry.findMetric? "Stock" = some stock := by decide
  have hrewrite : Expr.rewrite (fun n => [("Stock", "sum(amount)")].lookup n) "Stock * 2" =
      "sum(amount) * 2" := by cbv
  have hstep : p.1 = some (.ok "sum(amount) * 2") := by
    simp only [p, runStep, expand_metric, hnames, metricTexts_cons_some hstock, recallOrExpand,
      hremembered, metricTexts_nil, hrewrite]
  obtain ⟨hchain, -, hkept, -, hcounted⟩ :=
    run_keeps_context stockRegistry .default [.metric "Endless"] (.expr "Stock * 2" .metric)
  refine ⟨hremembered, hstep, hchain, hkept _ _ hremembered, (hcounted _ hstep).1 "amount" ?_⟩
  have hamount : "amount" ∈ Expr.columnRefs stock.expr := by
    rw [show Expr.columnRefs stock.expr = .ofList ["amount"] by cbv]
    simp
  have hmentions : stockRegistry.Mentions "Stock * 2" stock :=
    ⟨"Stock", by simp [NameSet.mem_def, hnames], hstock⟩
  exact .inr ⟨rfl, stock, hmentions, stock, .refl, hamount, .inl ⟨rfl, rfl⟩⟩

end Registry

end MetricSql
