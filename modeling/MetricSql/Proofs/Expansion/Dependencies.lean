import MetricSql.Proofs.Expansion.Memory

namespace MetricSql

open Relation

theorem NameSet.eq_of_mem_iff {s t : NameSet} (h : ∀ n, n ∈ s ↔ n ∈ t) : s = t := by
  have hnames : s.names = t.names := s.sorted.eq_of_mem_iff t.sorted h
  cases s
  cases t
  cases hnames
  rfl

/-- What an expansion can depend on besides metrics. -/
inductive Source
  | measure (name : String)
  | dimension (name : String)

def Context.Has (c : Context) : Source → Prop
  | .measure n => n ∈ c.measures
  | .dimension n => n ∈ c.dimensions

namespace Registry

variable {r : Registry} {option : AggOption} {m x : Metric} {c : Context} {chain : List String}
  {u : Source}

/-- The sources that an expression names when names stand for things of the given kind. -/
def Reads (r : Registry) (expr : String) (type : DefineType) : Source → Prop
  | .measure n =>
    n ∈ Expr.columnRefs expr ∧
      (type = .measure ∧ (r.findMeasure? n).isSome ∨
        type = .field ∧ r.hasField n ∧ r.findDimension? n = none)
  | .dimension n => n ∈ Expr.columnRefs expr ∧ type = .field ∧ (r.findDimension? n).isSome

/-- A metric depends on what is named by the metrics that it leads to. -/
def DependsOn (r : Registry) (m : Metric) (u : Source) : Prop :=
  ∃ x, ReflTransGen r.Refers m x ∧ r.Reads x.expr x.defineType u

def ExprDependsOn (r : Registry) (expr : String) (type : DefineType) (u : Source) : Prop :=
  r.Reads expr type u ∨ type = .metric ∧ ∃ m, r.Mentions expr m ∧ r.DependsOn m u

theorem dependsOn_iff : r.DependsOn m u ↔ r.ExprDependsOn m.expr m.defineType u := by
  constructor
  · rintro ⟨x, hmx, hx⟩
    obtain rfl | ⟨y, ⟨htype, hy⟩, hyx⟩ := hmx.cases_head
    · exact .inl hx
    · exact .inr ⟨htype, y, hy, x, hyx, hx⟩
  · rintro (hm | ⟨htype, y, hy, x, hyx, hx⟩)
    · exact ⟨m, .refl, hm⟩
    · exact ⟨x, .head ⟨htype, hy⟩ hyx, hx⟩

theorem not_reads_metric (expr : String) : ¬r.Reads expr .metric u := by
  cases u <;> simp [Reads]

/-- Whoever is remembered has all its sources counted. -/
def Covers (r : Registry) (c : Context) : Prop :=
  ∀ n text, c.remembered? n = some text → ∀ m, r.findMetric? n = some m →
    ∀ u, r.DependsOn m u → c.Has u

/-- The run `p` from `c` counts none but the sources it needs, and all of them unless it fails. -/
structure Records {α : Type} (r : Registry) (c : Context) (p : Except Cycle α × Context)
    (needs : Source → Prop) : Prop where
  keeps : ∀ u, c.Has u → p.2.Has u
  sound : ∀ u, p.2.Has u → c.Has u ∨ needs u
  complete : ∀ a, p.1 = .ok a → ∀ u, needs u → p.2.Has u
  covers : r.Covers p.2

section Records

variable {α β : Type} {p : Except Cycle α × Context} {q : Except Cycle β × Context}
  {needs needs' : Source → Prop} {c' : Context}

theorem Records.of_has {a : α} (hmemo : c'.memo = c.memo)
    (h : r.Covers c) (hhas : ∀ u, c'.Has u ↔ c.Has u ∨ needs u) :
    r.Records c ((.ok a : Except Cycle α), c') needs where
  keeps u hu := (hhas u).mpr (.inl hu)
  sound u := (hhas u).mp
  complete _ _ u hu := (hhas u).mpr (.inr hu)
  covers := by
    intro n text hn m hm u hu
    rw [Context.remembered?, hmemo] at hn
    exact (hhas u).mpr (.inl (h n text hn m hm u hu))

theorem Records.error {e : Cycle} (h : r.Records c ((.error e : Except Cycle α), c') needs)
    (hn : ∀ u, needs u → needs' u) : r.Records c ((.error e : Except Cycle β), c') needs' :=
  ⟨h.keeps, fun u hu => (h.sound u hu).imp_right (hn u), fun _ => nofun, h.covers⟩

theorem Records.ok {a : α} {b : β} (h : r.Records c (.ok a, c') needs) :
    r.Records c (.ok b, c') needs :=
  ⟨h.keeps, h.sound, fun _ _ => h.complete a rfl, h.covers⟩

theorem Records.trans {a : α} (hp : r.Records c p needs) (ha : p.1 = .ok a)
    (hq : r.Records p.2 q needs') : r.Records c q fun u => needs u ∨ needs' u where
  keeps u hu := hq.keeps u (hp.keeps u hu)
  sound u hu := (hq.sound u hu).elim (fun hu => (hp.sound u hu).imp_right .inl) fun hu =>
    .inr (.inr hu)
  complete b hb u hu := hu.elim (fun hu => hq.keeps u (hp.complete a ha u hu)) (hq.complete b hb u)
  covers := hq.covers

end Records

def RecordsOn (r : Registry) (option : AggOption) (chain : List String) : Prop :=
  ∀ c : Context, c.chain = chain → r.Covers c → ∀ m, r.findMetric? m.bizName = some m →
    r.Records c (r.expandEntered option m c) (r.DependsOn m)

theorem Covers.remember (h : r.Covers c) {n : String} (text : String)
    (hm : r.findMetric? n = some m) (hu : ∀ u, r.DependsOn m u → c.Has u) :
    r.Covers (c.remember n text) := by
  intro k text' hk x hx u hxu
  obtain ⟨rfl, -⟩ | ⟨-, hk⟩ := lookup_cons_eq_some.mp hk
  · obtain rfl : m = x := Option.some.inj (hm.symm.trans hx)
    exact hu u hxu
  · exact h k text' hk x hx u hxu

theorem RecordsOn.recallOrExpand (hr : r.RecordsOn option chain) (hc : c.chain = chain)
    (h : r.Covers c) {n : String} (hm : r.findMetric? n = some m) :
    r.Records c (r.recallOrExpand option n m c) (r.DependsOn m) := by
  rw [Registry.recallOrExpand]
  cases hk : c.remembered? n with
  | some text => exact ⟨fun _ => id, fun _ => .inl, fun _ _ => h n text hk m hm, h⟩
  | none =>
    have hp := hr c hc h m (findMetric?_bizName hm)
    rcases he : r.expandEntered option m c with ⟨e | text, c'⟩
    · rw [he] at hp
      refine ⟨hp.keeps, hp.sound, fun text htext => ?_, hp.covers⟩
      cases htext
    · rw [he] at hp
      have hall := hp.complete text rfl
      exact ⟨hp.keeps, hp.sound, fun _ _ => hall, hp.covers.remember text hm hall⟩

def NamesDependOn (r : Registry) (names : List String) (u : Source) : Prop :=
  ∃ n ∈ names, ∃ m, r.findMetric? n = some m ∧ r.DependsOn m u

theorem namesDependOn_cons_none {n : String} (hm : r.findMetric? n = none) (names : List String) :
    r.NamesDependOn (n :: names) = r.NamesDependOn names := by
  funext u
  simp [NamesDependOn, hm]

theorem namesDependOn_cons_some {n : String} (hm : r.findMetric? n = some m)
    (names : List String) :
    r.NamesDependOn (n :: names) = fun u => r.DependsOn m u ∨ r.NamesDependOn names u := by
  funext u
  simp [NamesDependOn, hm]

theorem exprDependsOn_metric (expr : String) :
    r.ExprDependsOn expr .metric = r.NamesDependOn (Expr.columnRefs expr).names := by
  funext u
  refine propext ⟨?_, ?_⟩
  · rintro (hu | ⟨-, m, ⟨n, hn, hm⟩, hu⟩)
    · exact absurd hu (not_reads_metric expr)
    · exact ⟨n, hn, m, hm, hu⟩
  · rintro ⟨n, hn, m, hm, hu⟩
    exact .inr ⟨rfl, m, ⟨n, hn, hm⟩, hu⟩

theorem RecordsOn.metricTexts (hr : r.RecordsOn option chain) (hc : c.chain = chain)
    (h : r.Covers c) (names : List String) :
    r.Records c (r.metricTexts option names c) (r.NamesDependOn names) := by
  induction names generalizing c with
  | nil =>
    have hnone (u) : ¬r.NamesDependOn [] u := by simp [NamesDependOn]
    rw [metricTexts_nil]
    exact ⟨fun _ => id, fun _ => .inl, fun _ _ u hu => absurd hu (hnone u), h⟩
  | cons n names ih =>
    cases hm : r.findMetric? n with
    | none =>
      rw [metricTexts_cons_none hm, namesDependOn_cons_none hm]
      exact ih hc h
    | some m =>
      have hp := hr.recallOrExpand hc h hm
      have hchain := r.chain_recallOrExpand option n m c
      rw [metricTexts_cons_some hm, namesDependOn_cons_some hm]
      rcases he : r.recallOrExpand option n m c with ⟨e | text, c'⟩
      · rw [he] at hp
        exact hp.error fun _ => .inl
      · rw [he] at hp hchain
        have hall := hp.trans rfl (ih (hchain.trans hc) hp.covers)
        dsimp only
        rcases hq : r.metricTexts option names c' with ⟨e | texts, c''⟩
        all_goals rw [hq] at hall
        · exact hall.error fun _ => id
        · exact hall.ok

theorem has_useFields (expr : String) (c : Context) :
    (r.useFields (Expr.columnRefs expr).names c).Has u ↔ c.Has u ∨ r.Reads expr .field u := by
  cases u with
  | measure n =>
    simp [useFields, Context.useMeasures, Context.useDimensions, Context.Has, Reads,
      ← NameSet.mem_def, and_comm]
  | dimension n =>
    have hfield (h : (r.findDimension? n).isSome) : r.hasField n := by simp [hasField, h]
    simp [useFields, Context.useMeasures, Context.useDimensions, Context.Has, Reads,
      ← NameSet.mem_def, and_iff_left_of_imp hfield]

theorem has_useMeasures (expr : String) (c : Context) :
    (c.useMeasures ((r.measureTexts option (Expr.columnRefs expr).names).map Prod.fst)).Has u ↔
      c.Has u ∨ r.Reads expr .measure u := by
  cases u with
  | measure n =>
    have hmem : n ∈ (r.measureTexts option (Expr.columnRefs expr).names).map Prod.fst ↔
        n ∈ Expr.columnRefs expr ∧ (r.findMeasure? n).isSome := by
      simp [measureTexts, Option.isSome_iff_exists, ← NameSet.mem_def]
    simp only [Context.useMeasures, Context.Has, Reads, NameSet.mem_insertAll, hmem]
    simp
  | dimension n => simp [Context.useMeasures, Context.Has, Reads]

theorem exprDependsOn_of_ne_metric {type : DefineType} (htype : type ≠ .metric) (expr : String) :
    r.ExprDependsOn expr type = r.Reads expr type := by
  funext u
  simp [ExprDependsOn, htype]

theorem RecordsOn.expand (hr : r.RecordsOn option chain) (hc : c.chain = chain)
    (h : r.Covers c) (expr : String) (type : DefineType) :
    r.Records c (r.expand option expr type c) (r.ExprDependsOn expr type) := by
  cases type with
  | field =>
    rw [expand_field, exprDependsOn_of_ne_metric (by decide)]
    exact .of_has rfl h fun u => has_useFields expr c
  | measure =>
    rw [expand_measure, exprDependsOn_of_ne_metric (by decide)]
    exact .of_has rfl h fun u => has_useMeasures expr c
  | metric =>
    have hs := hr.metricTexts hc h (Expr.columnRefs expr).names
    rw [expand_metric, exprDependsOn_metric]
    rcases hp : r.metricTexts option (Expr.columnRefs expr).names c with ⟨e | texts, c'⟩
    all_goals rw [hp] at hs
    · exact hs.error fun _ => id
    · exact hs.ok

theorem recordsOn (r : Registry) (option : AggOption) (chain : List String) :
    r.RecordsOn option chain := by
  induction chain using chain_induction (r := r) with
  | step chain ih =>
    intro c hc h m hm
    subst hc
    by_cases hp : c.inProgress m.bizName = true
    · rw [expandEntered_of_inProgress hp]
      exact ⟨fun _ => id, fun _ => .inl, fun _ => nofun, h⟩
    · rw [expandEntered_of_not_inProgress hp]
      have he := (ih _ m hm hp).expand (c := c.enter m.bizName) rfl h m.expr m.defineType
      exact ⟨he.keeps, fun u hu => (he.sound u hu).imp_right dependsOn_iff.mpr,
        fun a ha u hu => he.complete a ha u (dependsOn_iff.mp hu), he.covers⟩

end Registry

end MetricSql
