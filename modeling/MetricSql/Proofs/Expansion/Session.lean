import MetricSql.Proofs.Expansion.Memory

namespace MetricSql

open Registry

inductive Step
  | metric (name : String)
  | expr (text : String) (type : DefineType)
  deriving DecidableEq

namespace Registry

variable {r : Registry} {option : AggOption} {c : Context}

/-- Takes a step; asking for a metric that does not exist has no outcome. -/
def runStep (r : Registry) (option : AggOption) : Step → Context →
    Option (Except Cycle String) × Context
  | .metric name, c =>
    match r.findMetric? name with
    | none => (none, c)
    | some m =>
      let p := r.expandMetric option m c
      (some p.1, p.2)
  | .expr text type, c =>
    let p := r.expand option text type c
    (some p.1, p.2)

def run (r : Registry) (option : AggOption) : List Step → Context →
    List (Option (Except Cycle String)) × Context
  | [], c => ([], c)
  | s :: steps, c =>
    let p := r.runStep option s c
    let q := run r option steps p.2
    (p.1 :: q.1, q.2)

def plainStep (r : Registry) (option : AggOption) : Step → Option (Except Cycle String)
  | .metric name => (r.findMetric? name).map fun m => r.plainMetric option m []
  | .expr text type => some (r.plainExpand option text type [])

/-- A context between two steps: nothing is in progress and the memory can be trusted. -/
structure AtRest (r : Registry) (option : AggOption) (c : Context) : Prop where
  chain : c.chain = []
  recalls : r.Recalls option c

theorem atRest_empty (r : Registry) (option : AggOption) : r.AtRest option {} :=
  ⟨rfl, by simp [Recalls, Context.remembered?]⟩

theorem AtRest.expandMetric (h : r.AtRest option c) {name : String} {m : Metric}
    (hm : r.findMetric? name = some m) :
    r.Agrees option (r.expandMetric option m c) (r.plainMetric option m []) := by
  rw [expandMetric_eq]
  exact (agreesOn r option []).recallOrExpand h.chain h.recalls (findMetric?_bizName hm)
    (leadsTo_nil r m)

theorem AtRest.expand (h : r.AtRest option c) (expr : String) (type : DefineType) :
    r.Agrees option (r.expand option expr type c) (r.plainExpand option expr type []) :=
  (agreesOn r option []).expand h.chain h.recalls expr type fun _ m _ => leadsTo_nil r m

theorem chain_runStep (r : Registry) (option : AggOption) (s : Step) (c : Context) :
    (r.runStep option s c).2.chain = c.chain := by
  cases s with
  | metric name =>
    cases hm : r.findMetric? name with
    | none => simp only [runStep, hm]
    | some m =>
      simp only [runStep, hm]
      exact r.chain_expandMetric option m c
  | expr text type => exact r.chain_expand option text type c

theorem AtRest.runStep (h : r.AtRest option c) (s : Step) :
    (r.runStep option s c).1 = r.plainStep option s ∧ r.AtRest option (r.runStep option s c).2 := by
  have hchain := (r.chain_runStep option s c).trans h.chain
  cases s with
  | metric name =>
    cases hm : r.findMetric? name with
    | none =>
      simp only [Registry.runStep, plainStep, hm]
      exact ⟨rfl, h⟩
    | some m =>
      have hp := h.expandMetric hm
      simp only [Registry.runStep, plainStep, hm] at hchain ⊢
      exact ⟨congrArg some hp.result, hchain, hp.recalls⟩
  | expr text type =>
    have hp := h.expand text type
    exact ⟨congrArg some hp.result, hchain, hp.recalls⟩

theorem AtRest.run (h : r.AtRest option c) (steps : List Step) :
    (r.run option steps c).1 = steps.map (r.plainStep option) ∧
      r.AtRest option (r.run option steps c).2 := by
  induction steps generalizing c with
  | nil => exact ⟨rfl, h⟩
  | cons s steps ih =>
    obtain ⟨hs, hc⟩ := h.runStep s
    obtain ⟨hsteps, hlast⟩ := ih hc
    refine ⟨?_, hlast⟩
    rw [Registry.run, List.map_cons, hs, hsteps]

/-- Memory is transparent: in every run each step has the outcome that it has in an empty context,
which is its outcome without any memory. -/
theorem run_outcomes (r : Registry) (option : AggOption) (steps : List Step) :
    (r.run option steps {}).1 = steps.map (fun s => (r.runStep option s {}).1) ∧
      (r.run option steps {}).1 = steps.map (r.plainStep option) := by
  have hfresh : (fun s => (r.runStep option s {}).1) = r.plainStep option := by
    funext s
    exact ((atRest_empty r option).runStep s).1
  have hrun := ((atRest_empty r option).run steps).1
  exact ⟨by rw [hfresh, hrun], hrun⟩

theorem plainExpand_error_iff (expr : String) :
    (∃ e, r.plainExpand option expr .metric [] = .error e) ↔
      ∃ m, r.Mentions expr m ∧ r.ReachesCycle m := by
  constructor
  · rintro ⟨e, he⟩
    obtain ⟨-, m, hm, hme⟩ := plainExpand_error he
    obtain ⟨n, -, hn⟩ := id hm
    exact ⟨m, hm, (plainMetric_error_iff (findMetric?_bizName hn)).mp ⟨e, hme⟩⟩
  · rintro ⟨m, hm, hcycle⟩
    cases he : r.plainExpand option expr .metric [] with
    | error e => exact ⟨e, rfl⟩
    | ok text =>
      obtain ⟨text', ht⟩ := plainExpand_ok he hm
      obtain ⟨n, -, hn⟩ := hm
      exact absurd hcycle (not_reachesCycle_of_ok (findMetric?_bizName hn) ht)

theorem ok_iff_not_error {α : Type} (p : Except Cycle α) :
    (∃ a, p = .ok a) ↔ ¬∃ e, p = .error e := by
  cases p <;> simp

/-- Expansion always ends. After every run it fails, with the report of a cycle, exactly when a
cycle of references can be reached from what is expanded, and gives a text otherwise. -/
theorem expansion_fails_iff (r : Registry) (option : AggOption) (steps : List Step) :
    (∀ name m, r.findMetric? name = some m →
      ((∃ e, (r.expandMetric option m (r.run option steps {}).2).1 = .error e) ↔
        r.ReachesCycle m) ∧
      ((∃ text, (r.expandMetric option m (r.run option steps {}).2).1 = .ok text) ↔
        ¬r.ReachesCycle m)) ∧
    (∀ expr,
      ((∃ e, (r.expand option expr .metric (r.run option steps {}).2).1 = .error e) ↔
        ∃ m, r.Mentions expr m ∧ r.ReachesCycle m) ∧
      ((∃ text, (r.expand option expr .metric (r.run option steps {}).2).1 = .ok text) ↔
        ¬∃ m, r.Mentions expr m ∧ r.ReachesCycle m)) ∧
    ∀ expr,
      (∃ text, (r.expand option expr .measure (r.run option steps {}).2).1 = .ok text) ∧
      ∃ text, (r.expand option expr .field (r.run option steps {}).2).1 = .ok text := by
  have hrest := ((atRest_empty r option).run steps).2
  refine ⟨fun name m hm => ?_, fun expr => ?_, fun expr => ?_⟩
  · rw [(hrest.expandMetric hm).result, ok_iff_not_error,
      plainMetric_error_iff (findMetric?_bizName hm)]
    exact ⟨Iff.rfl, Iff.rfl⟩
  · rw [(hrest.expand expr .metric).result, ok_iff_not_error, plainExpand_error_iff]
    exact ⟨Iff.rfl, Iff.rfl⟩
  · rw [(hrest.expand expr .measure).result, (hrest.expand expr .field).result, plainExpand,
      plainExpand]
    exact ⟨⟨_, rfl⟩, ⟨_, rfl⟩⟩

def loopA : Metric := { bizName := "a", defineType := .metric, expr := "B + 1" }

def loopB : Metric := { bizName := "b", defineType := .metric, expr := "A * 2" }

def besideLoop : Metric := { bizName := "c", defineType := .metric, expr := "1 - a" }

def loopRegistry : Registry := { metrics := [loopA, loopB, besideLoop] }

theorem refers_loopB : loopRegistry.Refers loopA loopB :=
  ⟨rfl, "B", by rw [show Expr.columnRefs loopA.expr = .ofList ["B"] by cbv]; simp, by decide⟩

theorem refers_loopA : loopRegistry.Refers loopB loopA :=
  ⟨rfl, "A", by rw [show Expr.columnRefs loopB.expr = .ofList ["A"] by cbv]; simp, by decide⟩

theorem besideLoop_refers : loopRegistry.Refers besideLoop loopA :=
  ⟨rfl, "a", by rw [show Expr.columnRefs besideLoop.expr = .ofList ["a"] by cbv]; simp, by decide⟩

theorem besideLoop_reachesCycle : loopRegistry.ReachesCycle besideLoop :=
  ⟨loopA, .single besideLoop_refers, .tail (.single refers_loopB) refers_loopA⟩

theorem expansion_fails_besideLoop :
    loopRegistry.findMetric? "C" = some besideLoop ∧ loopRegistry.ReachesCycle besideLoop ∧
      ∃ e, (loopRegistry.expandMetric .default besideLoop
        (loopRegistry.run .default [.metric "b", .expr "2" .metric] {}).2).1 = .error e :=
  ⟨by decide, besideLoop_reachesCycle,
    (((expansion_fails_iff loopRegistry .default [.metric "b", .expr "2" .metric]).1 "C" besideLoop
      (by decide)).1).mpr besideLoop_reachesCycle⟩

end Registry

end MetricSql
