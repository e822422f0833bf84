import MetricSql.Proofs.Expansion.Balance
import MetricSql.Proofs.Expansion.Plain

namespace MetricSql.Registry

open Text Relation

variable {r : Registry} {option : AggOption} {m : Metric} {c : Context} {chain : List String}

theorem lookup_cons_eq_some {n k text text' : String} {l : List (String × String)} :
    ((n, text) :: l).lookup k = some text' ↔
      k = n ∧ text = text' ∨ k ≠ n ∧ l.lookup k = some text' := by
  by_cases h : k = n
  · simp [h]
  · have hne : (k == n) = false := by simpa using h
    simp [List.lookup, h, hne]

/-- What is remembered for a name is the text of the metric with that name. -/
def Recalls (r : Registry) (option : AggOption) (c : Context) : Prop :=
  ∀ n text, c.remembered? n = some text →
    ∃ m, r.findMetric? n = some m ∧ r.plainMetric option m [] = .ok text

/-- The run `p` ends in the expected result and with a memory that can be trusted. -/
structure Agrees {α : Type} (r : Registry) (option : AggOption)
    (p : Except Cycle α × Context) (expected : Except Cycle α) : Prop where
  result : p.1 = expected
  recalls : r.Recalls option p.2

/-- On this chain metrics are expanded as they are without a memory. -/
def AgreesOn (r : Registry) (option : AggOption) (chain : List String) : Prop :=
  ∀ c : Context, c.chain = chain → r.Recalls option c →
    ∀ m, r.findMetric? m.bizName = some m → r.LeadsTo chain m →
      r.Agrees option (r.expandEntered option m c) (r.plainMetric option m chain)

theorem Recalls.remember (h : r.Recalls option c) {n text : String}
    (hm : r.findMetric? n = some m) (ht : r.plainMetric option m [] = .ok text) :
    r.Recalls option (c.remember n text) := by
  intro k text' hk
  obtain ⟨rfl, rfl⟩ | ⟨-, hk⟩ := lookup_cons_eq_some.mp hk
  · exact ⟨m, hm, ht⟩
  · exact h k text' hk

theorem AgreesOn.recallOrExpand (ha : r.AgreesOn option chain) (hc : c.chain = chain)
    (h : r.Recalls option c) {n : String} (hm : r.findMetric? n = some m)
    (hl : r.LeadsTo chain m) :
    r.Agrees option (r.recallOrExpand option n m c) (r.plainMetric option m chain) := by
  have hm' := findMetric?_bizName hm
  unfold Registry.recallOrExpand
  cases hk : c.remembered? n with
  | some text =>
    obtain ⟨x, hx, ht⟩ := h n text hk
    obtain rfl : m = x := Option.some.inj (hm.symm.trans hx)
    exact ⟨(plainMetric_ok_of_leadsTo hm' hl ht).symm, h⟩
  | none =>
    have hr := ha c hc h m hm' hl
    rcases he : r.expandEntered option m c with ⟨e | text, c'⟩
    · rw [he] at hr
      exact hr
    · rw [he] at hr
      have ht := plainMetric_ok_of_leadsTo hm' (leadsTo_nil r m) hr.result.symm
      exact ⟨hr.result, hr.recalls.remember hm ht⟩

theorem AgreesOn.metricTexts (ha : r.AgreesOn option chain) (hc : c.chain = chain)
    (h : r.Recalls option c) (refs : List String)
    (hl : ∀ n ∈ refs, ∀ m, r.findMetric? n = some m → r.LeadsTo chain m) :
    r.Agrees option (r.metricTexts option refs c) (r.plainTexts option refs chain) := by
  induction refs generalizing c with
  | nil =>
    rw [metricTexts_nil, plainTexts]
    exact ⟨rfl, h⟩
  | cons n refs ih =>
    have hrefs := fun k hk => hl k (List.mem_cons_of_mem _ hk)
    cases hm : r.findMetric? n with
    | none =>
      rw [metricTexts_cons_none hm, plainTexts_cons_none hm]
      exact ih hc h hrefs
    | some m =>
      have hr := ha.recallOrExpand hc h hm (hl n List.mem_cons_self m hm)
      have hchain := r.chain_recallOrExpand option n m c
      rw [metricTexts_cons_some hm, plainTexts_cons_some hm, ← hr.result]
      rcases he : r.recallOrExpand option n m c with ⟨e | text, c'⟩
      · rw [he] at hr
        exact ⟨rfl, hr.recalls⟩
      · rw [he] at hr hchain
        have hs := ih (hchain.trans hc) hr.recalls hrefs
        dsimp only [Except.bind]
        rw [← hs.result]
        rcases hp : r.metricTexts option refs c' with ⟨e | texts, c''⟩
        all_goals
          rw [hp] at hs
          exact ⟨rfl, hs.recalls⟩

theorem AgreesOn.expand (ha : r.AgreesOn option chain) (hc : c.chain = chain)
    (h : r.Recalls option c) (expr : String) (type : DefineType)
    (hl : type = .metric → ∀ m, r.Mentions expr m → r.LeadsTo chain m) :
    r.Agrees option (r.expand option expr type c) (r.plainExpand option expr type chain) := by
  cases type with
  | field =>
    rw [expand_field, plainExpand]
    exact ⟨rfl, h⟩
  | measure =>
    rw [expand_measure, plainExpand]
    exact ⟨rfl, h⟩
  | metric =>
    have hs := ha.metricTexts hc h (Expr.columnRefs expr).names
      fun n hn m hm => hl rfl m ⟨n, hn, hm⟩
    rw [expand_metric, plainExpand_metric, ← hs.result]
    rcases hp : r.metricTexts option (Expr.columnRefs expr).names c with ⟨e | texts, c'⟩
    all_goals
      rw [hp] at hs
      exact ⟨rfl, hs.recalls⟩

/-- The memory makes no difference, whatever chain has been entered. -/
theorem agreesOn (r : Registry) (option : AggOption) (chain : List String) :
    r.AgreesOn option chain := by
  induction chain using chain_induction (r := r) with
  | step chain ih =>
    intro c hc h m hm hl
    subst hc
    unfold plainMetric
    by_cases hp : c.inProgress m.bizName = true
    · rw [expandEntered_of_inProgress hp, if_pos (show onChain c.chain m.bizName = true from hp)]
      exact ⟨rfl, h⟩
    · have hon : ¬onChain c.chain m.bizName = true := hp
      have he := (ih _ m hm hon).expand (c := c.enter m.bizName) rfl h m.expr m.defineType
        fun htype x hx => hl.append hm ⟨htype, hx⟩
      rw [expandEntered_of_not_inProgress hp, if_neg hon]
      exact ⟨he.result, he.recalls⟩

end MetricSql.Registry
