import MetricSql.Proofs.Expansion.Session

namespace MetricSql.Registry

open Text Relation

variable {r : Registry} {option : AggOption} {m x : Metric} {chain : List String} {e : Cycle}

def NameRefers (r : Registry) (a b : String) : Prop :=
  ∃ m x, r.findMetric? a = some m ∧ r.Refers m x ∧ x.bizName = b

/-- The chain holds metrics under their own names, none of them twice, each of which is defined
through the next one and the last one through the metric. -/
structure TrailTo (r : Registry) (chain : List String) (m : Metric) : Prop where
  named : ∀ n ∈ chain, ∃ x, r.findMetric? n = some x ∧ x.bizName = n
  linked : (chain ++ [m.bizName]).IsChain r.NameRefers
  distinct : chain.Pairwise fun a b => sameName a b = false

/-- The path follows references from name to name and meets none twice, up to its last name, which
it has met once before. -/
structure ClosesCycle (r : Registry) (e : Cycle) : Prop where
  linked : e.path.IsChain r.NameRefers
  distinct : e.path.dropLast.Pairwise fun a b => sameName a b = false
  last : e.path.getLast? = some e.name
  once : e.path.dropLast.count e.name = 1

theorem trailTo_nil (r : Registry) (m : Metric) : r.TrailTo [] m :=
  ⟨by simp, List.isChain_singleton _, .nil⟩

theorem TrailTo.append (h : r.TrailTo chain m) (hm : r.findMetric? m.bizName = some m)
    (hc : ¬onChain chain m.bizName = true) (hx : r.Refers m x) :
    r.TrailTo (chain ++ [m.bizName]) x where
  named n hn := by
    obtain hn | hn := List.mem_append.mp hn
    · exact h.named n hn
    · obtain rfl := List.mem_singleton.mp hn
      exact ⟨m, hm, rfl⟩
  linked := by
    refine List.isChain_append.mpr ⟨h.linked, List.isChain_singleton _, ?_⟩
    intro a ha b hb
    obtain rfl : m.bizName = a := by simpa using ha
    obtain rfl : x.bizName = b := by simpa using hb
    exact ⟨m, x, hm, hx, rfl⟩
  distinct := by
    refine List.pairwise_append.mpr ⟨h.distinct, List.pairwise_singleton _ _, ?_⟩
    intro a ha b hb
    obtain rfl := List.mem_singleton.mp hb
    rw [← Bool.not_eq_true]
    exact fun hsame => hc (List.any_eq_true.mpr ⟨a, ha, hsame⟩)

theorem TrailTo.mem_of_onChain (h : r.TrailTo chain m) (hm : r.findMetric? m.bizName = some m)
    (hc : onChain chain m.bizName = true) : m.bizName ∈ chain := by
  obtain ⟨n, hn, hsame⟩ := List.any_eq_true.mp hc
  obtain ⟨x, hx, hname⟩ := h.named n hn
  obtain rfl := eq_of_findMetric? hm hx hsame
  rwa [hname]

theorem TrailTo.closesCycle (h : r.TrailTo chain m) (hm : r.findMetric? m.bizName = some m)
    (hc : onChain chain m.bizName = true) :
    r.ClosesCycle ⟨m.bizName, chain ++ [m.bizName]⟩ where
  linked := h.linked
  distinct := by
    rw [List.dropLast_concat]
    exact h.distinct
  last := List.getLast?_concat
  once := by
    have hnodup : chain.Nodup := h.distinct.imp fun {a b} hab => by
      rintro rfl
      simp [sameName_refl] at hab
    rw [List.dropLast_concat]
    exact List.count_eq_one_of_mem hnodup (h.mem_of_onChain hm hc)

/-- Expansion goes down a trail, and fails only where the trail closes. -/
theorem closesCycle_of_error (hm : r.findMetric? m.bizName = some m) (h : r.TrailTo chain m)
    (he : r.plainMetric option m chain = .error e) :
    chain ++ [m.bizName] <+: e.path ∧ r.ClosesCycle e := by
  induction chain using chain_induction (r := r) generalizing m with
  | step chain ih =>
    by_cases hc : onChain chain m.bizName = true
    · rw [plainMetric, if_pos hc] at he
      obtain rfl := Except.error.inj he
      exact ⟨List.prefix_rfl, h.closesCycle hm hc⟩
    · rw [plainMetric_of_not_onChain hc] at he
      obtain ⟨htype, x, hx, hxe⟩ := plainExpand_error he
      have htrail := h.append hm hc ⟨htype, hx⟩
      obtain ⟨n, -, hn⟩ := hx
      obtain ⟨hstart, hcloses⟩ := ih _ m hm hc (findMetric?_bizName hn) htrail hxe
      exact ⟨(List.prefix_append _ _).trans hstart, hcloses⟩

theorem closesCycle_of_error_nil (hm : r.findMetric? m.bizName = some m)
    (he : r.plainMetric option m [] = .error e) :
    e.path.head? = some m.bizName ∧ r.ClosesCycle e := by
  obtain ⟨⟨rest, hpath⟩, hcloses⟩ := closesCycle_of_error hm (trailTo_nil r m) he
  refine ⟨?_, hcloses⟩
  rw [← hpath]
  rfl

/-- After every run the report of a failure is a cycle of the graph of metrics: its path starts with
what was asked for, follows references, and ends with the name that it meets a second time. -/
theorem reported_path_closes_cycle (r : Registry) (option : AggOption) (steps : List Step) :
    (∀ name m, r.findMetric? name = some m →
      ∀ e, (r.expandMetric option m (r.run option steps {}).2).1 = .error e →
        e.path.head? = some m.bizName ∧ r.ClosesCycle e) ∧
    ∀ expr e, (r.expand option expr .metric (r.run option steps {}).2).1 = .error e →
      (∃ m, r.Mentions expr m ∧ e.path.head? = some m.bizName) ∧ r.ClosesCycle e := by
  have hrest := ((atRest_empty r option).run steps).2
  constructor
  · intro name m hm e he
    rw [(hrest.expandMetric hm).result] at he
    exact closesCycle_of_error_nil (findMetric?_bizName hm) he
  · intro expr e he
    rw [(hrest.expand expr .metric).result] at he
    obtain ⟨-, m, hmentions, hme⟩ := plainExpand_error he
    obtain ⟨n, -, hn⟩ := id hmentions
    obtain ⟨hhead, hcloses⟩ := closesCycle_of_error_nil (findMetric?_bizName hn) hme
    exact ⟨⟨m, hmentions, hhead⟩, hcloses⟩

theorem plainMetric_error_of_first {n : String} {names : List String}
    (hc : ¬onChain chain m.bizName = true) (htype : m.defineType = .metric)
    (hnames : (Expr.columnRefs m.expr).names = n :: names) (hn : r.findMetric? n = some x)
    (he : r.plainMetric option x (chain ++ [m.bizName]) = .error e) :
    r.plainMetric option m chain = .error e := by
  rw [plainMetric_of_not_onChain hc, htype, plainExpand_metric, hnames, plainTexts_cons_some hn, he]
  rfl

theorem plainMetric_besideLoop :
    loopRegistry.plainMetric .default besideLoop [] = .error ⟨"a", ["c", "a", "b", "a"]⟩ := by
  have hbeside : (Expr.columnRefs besideLoop.expr).names = ["a"] := by cbv
  have hloopA : (Expr.columnRefs loopA.expr).names = ["B"] := by cbv
  have hloopB : (Expr.columnRefs loopB.expr).names = ["A"] := by cbv
  refine plainMetric_error_of_first (x := loopA) (by decide) rfl hbeside (by decide) ?_
  refine plainMetric_error_of_first (x := loopB) (by decide) rfl hloopA (by decide) ?_
  refine plainMetric_error_of_first (x := loopA) (by decide) rfl hloopB (by decide) ?_
  rfl

theorem reported_path_closes_cycle_besideLoop :
    let c := (loopRegistry.run .default [.metric "b", .expr "2 - A" .metric] {}).2
    let e : Cycle := ⟨"a", ["c", "a", "b", "a"]⟩
    loopRegistry.findMetric? "C" = some besideLoop ∧
      (loopRegistry.expandMetric .default besideLoop c).1 = .error e ∧
      (loopRegistry.expand .default "1 + C" .metric c).1 = .error e ∧
      loopRegistry.ClosesCycle e ∧
      ∃ m, loopRegistry.Mentions "1 + C" m ∧ e.path.head? = some m.bizName := by
  intro c e
  have hfind : loopRegistry.findMetric? "C" = some besideLoop := by decide
  have hnames : (Expr.columnRefs "1 + C").names = ["C"] := by cbv
  have hrest := ((atRest_empty loopRegistry .default).run
    [.metric "b", .expr "2 - A" .metric]).2
  have hmetric : (loopRegistry.expandMetric .default besideLoop c).1 = .error e :=
    (hrest.expandMetric hfind).result.trans plainMetric_besideLoop
  have hexpr : (loopRegistry.expand .default "1 + C" .metric c).1 = .error e := by
    rw [(hrest.expand "1 + C" .metric).result, plainExpand_metric, hnames,
      plainTexts_cons_some hfind, plainMetric_besideLoop]
    rfl
  obtain ⟨hmetrics, hexprs⟩ :=
    reported_path_closes_cycle loopRegistry .default [.metric "b", .expr "2 - A" .metric]
  exact ⟨hfind, hmetric, hexpr, (hmetrics "C" besideLoop hfind e hmetric).2,
    (hexprs "1 + C" e hexpr).1⟩

end MetricSql.Registry
