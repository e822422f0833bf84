import Mathlib
import MetricSql.Expr.Rewrite
import MetricSql.Schema.Registry

namespace MetricSql.Registry

open Text Relation

variable {r : Registry} {m x : Metric} {name : String}

theorem findMetric?_congr {a b : String} (h : sameName a b = true) :
    r.findMetric? a = r.findMetric? b := by
  have hp : (fun m : Metric => sameName m.bizName a) = fun m => sameName m.bizName b := by
    funext m
    rw [Bool.eq_iff_iff]
    exact ⟨fun k => sameName_trans k h, fun k => sameName_trans k (sameName_symm h)⟩
  simp only [findMetric?, hp]

theorem findMetric?_bizName (h : r.findMetric? name = some m) :
    r.findMetric? m.bizName = some m :=
  (findMetric?_congr (sameName_of_findMetric? h)).trans h

theorem eq_of_findMetric? (hm : r.findMetric? m.bizName = some m)
    (hx : r.findMetric? name = some x) (h : sameName name m.bizName = true) : x = m := by
  rw [findMetric?_congr h, hm] at hx
  exact (Option.some.inj hx).symm

def Mentions (r : Registry) (expr : String) (m : Metric) : Prop :=
  ∃ n ∈ Expr.columnRefs expr, r.findMetric? n = some m

/-- The edges of the graph of metrics that are defined through other metrics. -/
def Refers (r : Registry) (m x : Metric) : Prop := m.defineType = .metric ∧ r.Mentions m.expr x

def ReachesCycle (r : Registry) (m : Metric) : Prop :=
  ∃ x, ReflTransGen r.Refers m x ∧ TransGen r.Refers x x

theorem ReachesCycle.of_refers (h : r.Refers m x) (hx : r.ReachesCycle x) : r.ReachesCycle m := by
  obtain ⟨y, hxy, hy⟩ := hx
  exact ⟨y, ReflTransGen.head h hxy, hy⟩

theorem ReachesCycle.exists_refers (h : r.ReachesCycle m) :
    ∃ x, r.Refers m x ∧ r.ReachesCycle x := by
  obtain ⟨y, hmy, hy⟩ := h
  cases hmy using ReflTransGen.head_induction_on with
  | refl =>
    obtain ⟨x, hmx, hxm⟩ := TransGen.head'_iff.mp hy
    exact ⟨x, hmx, _, hxm, hy⟩
  | head hmx hxy => exact ⟨_, hmx, y, hxy, hy⟩

theorem not_reachesCycle (h : ∀ x, r.Refers m x → ¬r.ReachesCycle x) : ¬r.ReachesCycle m := by
  intro hm
  obtain ⟨x, hmx, hx⟩ := hm.exists_refers
  exact h x hmx hx

end MetricSql.Registry
