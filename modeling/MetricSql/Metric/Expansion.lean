import MetricSql.Expr.Rewrite
import MetricSql.Schema.Registry

namespace MetricSql

open Text

structure Cycle where
  name : String
  path : List String
  deriving DecidableEq

/-- What is known while metrics are expanded: texts of metrics, the measures and dimensions that
were used, and the names of the metrics whose expansion is under way. -/
structure Context where
  memo : List (String × String) := []
  measures : NameSet := .empty
  dimensions : NameSet := .empty
  chain : List String := []

namespace Context

variable (c : Context)

def remembered? (name : String) : Option String := c.memo.lookup name

def remember (name text : String) : Context := { c with memo := (name, text) :: c.memo }

def useMeasures (names : List String) : Context :=
  { c with measures := c.measures.insertAll names }

def useDimensions (names : List String) : Context :=
  { c with dimensions := c.dimensions.insertAll names }

def inProgress (name : String) : Bool := c.chain.any (sameName · name)

def enter (name : String) : Context := { c with chain := c.chain ++ [name] }

/-- Takes the name that was entered last off the chain. -/
def leave : Context := { c with chain := c.chain.dropLast }

/-- A context in which the same metrics are in progress as in `c`. An expansion returns one, so that
as many metrics are pending for the next reference as for the last. -/
abbrev Balanced := { c' : Context // c'.chain = c.chain }

theorem chain_leave {c c' : Context} {name : String} (h : c'.chain = (c.enter name).chain) :
    c'.leave.chain = c.chain := by
  rw [leave, h, enter, List.dropLast_concat]

def entering (m : Metric)
    (run : ¬c.inProgress m.bizName = true → Except Cycle String × (c.enter m.bizName).Balanced) :
    Except Cycle String × c.Balanced :=
  if h : c.inProgress m.bizName = true then
    (.error ⟨m.bizName, c.chain ++ [m.bizName]⟩, ⟨c, rfl⟩)
  else
    let p := run h
    (p.1, ⟨p.2.val.leave, chain_leave p.2.property⟩)

end Context

namespace Registry

variable (r : Registry)

def pending (c : Context) : Nat := r.metrics.countP fun m => !c.inProgress m.bizName

theorem inProgress_enter (c : Context) (a b : String) :
    (c.enter a).inProgress b = (c.inProgress b || sameName a b) := by
  simp [Context.inProgress, Context.enter]

theorem pending_enter_lt {r : Registry} {c : Context} {name : String} {m : Metric}
    (hm : r.findMetric? name = some m) (hc : ¬c.inProgress m.bizName = true) :
    r.pending (c.enter m.bizName) < r.pending c := by
  have hmem := mem_of_findMetric? hm
  unfold pending
  generalize r.metrics = ms at hmem
  have hle : ∀ ms : List Metric, ms.countP (fun x => !(c.enter m.bizName).inProgress x.bizName) ≤
      ms.countP (fun x => !c.inProgress x.bizName) := fun ms =>
    List.countP_mono_left fun x _ h => by
      simp only [inProgress_enter, Bool.not_or, Bool.and_eq_true] at h
      exact h.1
  induction ms with
  | nil => simp at hmem
  | cons x ms ih =>
    rcases List.mem_cons.mp hmem with rfl | h
    · rw [List.countP_cons_of_neg (by simp [inProgress_enter, sameName_refl]),
        List.countP_cons_of_pos (by simpa using hc)]
      exact Nat.lt_succ_of_le (hle ms)
    · rw [List.countP_cons, List.countP_cons]
      have hx : (if (!(c.enter m.bizName).inProgress x.bizName) = true then 1 else 0) ≤
          (if (!c.inProgress x.bizName) = true then 1 else 0) := by
        simp only [inProgress_enter]
        cases c.inProgress x.bizName <;> simp
        split <;> omega
      have := ih h
      omega

def measureTexts (option : AggOption) (refs : List String) : List (String × String) :=
  refs.filterMap fun n => (r.findMeasure? n).map fun m => (n, m.text option)

/-- Counts the fields among the names, as dimensions or else as measures. -/
def useFields (refs : List String) (c : Context) : Context :=
  let fields := refs.filter (r.hasField ·)
  let isDimension n := (r.findDimension? n).isSome
  (c.useDimensions (fields.filter isDimension)).useMeasures (fields.filter (!isDimension ·))

theorem pending_congr {r : Registry} {c c' : Context} (h : c'.chain = c.chain) :
    r.pending c' = r.pending c := by
  simp only [pending, Context.inProgress, h]

mutual

/-- Expands an expression in which names stand for things of the given kind. Names that are not
defined stay as they are. -/
def expandBalanced (r : Registry) (option : AggOption) (expr : String) (type : DefineType)
    (c : Context) : Except Cycle String × c.Balanced :=
  let refs := (Expr.columnRefs expr).names
  match type with
  | .field => (.ok expr, ⟨r.useFields refs c, rfl⟩)
  | .measure =>
    let texts := r.measureTexts option refs
    (.ok (Expr.rewrite (fun n => texts.lookup n) expr),
      ⟨c.useMeasures (texts.map Prod.fst), rfl⟩)
  | .metric =>
    match metricTextsBalanced r option refs c with
    | (.ok texts, c) => (.ok (Expr.rewrite (fun n => texts.lookup n) expr), c)
    | (.error e, c) => (.error e, c)
termination_by (r.pending c, 1, 0)

def metricTextsBalanced (r : Registry) (option : AggOption) (refs : List String) (c : Context) :
    Except Cycle (List (String × String)) × c.Balanced :=
  match refs with
  | [] => (.ok [], ⟨c, rfl⟩)
  | n :: refs =>
    match _hm : r.findMetric? n with
    | none => metricTextsBalanced r option refs c
    | some m =>
      match c.remembered? n with
      | some text =>
        match metricTextsBalanced r option refs c with
        | (.ok texts, c) => (.ok ((n, text) :: texts), c)
        | (.error e, c) => (.error e, c)
      | none =>
        match c.entering m fun _ =>
          expandBalanced r option m.expr m.defineType (c.enter m.bizName) with
        | (.error e, c) => (.error e, c)
        | (.ok text, ⟨c', hc⟩) =>
          match metricTextsBalanced r option refs (c'.remember n text) with
          | (.ok texts, ⟨c'', hc'⟩) => (.ok ((n, text) :: texts), ⟨c'', hc'.trans hc⟩)
          | (.error e, ⟨c'', hc'⟩) => (.error e, ⟨c'', hc'.trans hc⟩)
termination_by (r.pending c, 0, refs.length)
decreasing_by
  · exact Prod.Lex.right _ (Prod.Lex.right _ (Nat.lt_succ_self _))
  · exact Prod.Lex.right _ (Prod.Lex.right _ (Nat.lt_succ_self _))
  · exact Prod.Lex.left _ _ (pending_enter_lt _hm ‹_›)
  · rw [pending_congr (show (c'.remember n text).chain = c.chain from hc)]
    exact Prod.Lex.right _ (Prod.Lex.right _ (Nat.lt_succ_self _))

end

def expand (r : Registry) (option : AggOption) (expr : String) (type : DefineType) (c : Context) :
    Except Cycle String × Context :=
  let p := r.expandBalanced option expr type c
  (p.1, p.2)

def metricTexts (r : Registry) (option : AggOption) (refs : List String) (c : Context) :
    Except Cycle (List (String × String)) × Context :=
  let p := r.metricTextsBalanced option refs c
  (p.1, p.2)

def expandEntered (r : Registry) (option : AggOption) (m : Metric) (c : Context) :
    Except Cycle String × Context :=
  let p := c.entering m fun _ =>
    r.expandBalanced option m.expr m.defineType (c.enter m.bizName)
  (p.1, p.2)

def expandMetric (option : AggOption) (m : Metric) (c : Context) : Except Cycle String × Context :=
  match c.remembered? m.bizName with
  | some text => (.ok text, c)
  | none =>
    match r.expandEntered option m c with
    | (.error e, c) => (.error e, c)
    | (.ok text, c) => (.ok text, c.remember m.bizName text)

end Registry

end MetricSql
