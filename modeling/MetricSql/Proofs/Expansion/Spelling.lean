import MetricSql.Proofs.Expansion.Retention
import MetricSql.Proofs.Expression.Recasing

namespace MetricSql.Registry

open Text MetricSql.Expr

variable {r : Registry} {option : AggOption} {m : Metric} {chain names : List String}
  {expr expr' n : String}

/-- The second expression is the first one with the names of metrics written in other cases, each
time in any way. -/
def Respells (r : Registry) (expr expr' : String) : Prop :=
  ∃ ts us, Splits expr.toList ts ∧ Recased (fun n => (r.findMetric? n).isSome) ts us ∧
    expr'.toList = us.flatMap Token.text

theorem Respells.map_findMetric? (h : r.Respells expr expr') :
    (references (scan expr.toList)).map r.findMetric? =
      (references (scan expr'.toList)).map r.findMetric? := by
  obtain ⟨ts, us, hts, hus, hexpr⟩ := h
  have hsplit := hus.splits hts
  rw [hexpr, ← splits_iff.1 hts, ← splits_iff.1 hsplit, ← List.forall₂_eq_eq_eq,
    List.forall₂_map_left_iff, List.forall₂_map_right_iff]
  exact (hus.references hts).imp fun _ _ hsame => findMetric?_congr hsame

theorem mentions_iff : r.Mentions expr m ↔
    some m ∈ (references (scan expr.toList)).map r.findMetric? := by
  simp only [Mentions, mem_columnRefs, List.mem_map]

theorem Respells.mentions_iff (h : r.Respells expr expr') :
    r.Mentions expr m ↔ r.Mentions expr' m := by
  rw [Registry.mentions_iff, Registry.mentions_iff, h.map_findMetric?]

def plainText? (r : Registry) (option : AggOption) (n : String) : Option String :=
  (r.findMetric? n).bind fun m => (r.plainMetric option m []).toOption

theorem plainText?_congr {k : String} (h : sameName n k = true) :
    r.plainText? option n = r.plainText? option k := by
  rw [plainText?, plainText?, findMetric?_congr h]

theorem lookup_of_plainTexts {texts : List (String × String)}
    (h : r.plainTexts option names [] = .ok texts) (hn : n ∈ names ∨ r.findMetric? n = none) :
    texts.lookup n = r.plainText? option n := by
  induction names generalizing texts with
  | nil =>
    rw [plainTexts] at h
    obtain rfl := Except.ok.inj h
    obtain hn | hn := hn
    · cases hn
    · rw [plainText?, hn]
      rfl
  | cons k names ih =>
    cases hk : r.findMetric? k with
    | none =>
      rw [plainTexts_cons_none hk] at h
      refine ih h ?_
      obtain hn | hn := hn
      · obtain rfl | hn := List.mem_cons.1 hn
        · exact .inr hk
        · exact .inl hn
      · exact .inr hn
    | some m =>
      obtain ⟨text, rest, htext, hrest, rfl⟩ := plainTexts_cons_ok hk h
      by_cases hnk : n = k
      · subst hnk
        rw [plainText?, hk, Option.bind_some, htext, List.lookup_cons_self]
        rfl
      · have hne : (n == k) = false := by simpa using hnk
        rw [List.lookup_cons, hne]
        refine ih hrest (hn.imp_left fun hn => ?_)
        exact (List.mem_cons.1 hn).resolve_left hnk

/-- An expression of metrics expands to itself with the texts of the metrics put in. -/
theorem eq_rewrite_of_plainExpand {text : String}
    (h : r.plainExpand option expr .metric [] = .ok text) :
    text = rewrite (r.plainText? option) expr := by
  rw [plainExpand_metric] at h
  cases ht : r.plainTexts option (columnRefs expr).names [] with
  | error e => simp [ht, Except.map] at h
  | ok texts =>
    rw [ht] at h
    obtain rfl := Except.ok.inj h
    refine congrArg String.ofList (rewriteTokens_congr (fun n hn => ?_) true)
    exact lookup_of_plainTexts ht (.inl (mem_columnRefs.2 hn))

theorem Respells.rewrite_eq (h : r.Respells expr expr') {text : String}
    (hok : r.plainExpand option expr .metric [] = .ok text) :
    rewrite (r.plainText? option) expr' = rewrite (r.plainText? option) expr := by
  obtain ⟨ts, us, hts, hus, hexpr⟩ := h
  have hsplit := hus.splits hts
  have hfound : ∀ n ∈ references ts, (r.findMetric? n).isSome → (r.plainText? option n).isSome := by
    intro n hn hmetric
    obtain ⟨m, hm⟩ := Option.isSome_iff_exists.1 hmetric
    rw [splits_iff.1 hts, ← mem_columnRefs] at hn
    obtain ⟨t, ht⟩ := plainExpand_ok hok ⟨n, hn, hm⟩
    rw [plainText?, hm, Option.bind_some, ht]
    rfl
  rw [rewrite, rewrite, hexpr, ← splits_iff.1 hts, ← splits_iff.1 hsplit,
    hus.rewriteTokens (fun n k => plainText?_congr) hts hfound]

theorem Respells.plainExpand_error_iff (h : r.Respells expr expr') :
    (∃ e, r.plainExpand option expr .metric [] = .error e) ↔
      ∃ e, r.plainExpand option expr' .metric [] = .error e := by
  rw [Registry.plainExpand_error_iff, Registry.plainExpand_error_iff]
  simp only [h.mentions_iff]

theorem Respells.plainExpand_ok (h : r.Respells expr expr') {text : String}
    (hok : r.plainExpand option expr .metric [] = .ok text) :
    r.plainExpand option expr' .metric [] = .ok text := by
  cases hok' : r.plainExpand option expr' .metric [] with
  | error e =>
    obtain ⟨d, hd⟩ := h.plainExpand_error_iff.2 ⟨e, hok'⟩
    rw [hok] at hd
    cases hd
  | ok text' =>
    rw [eq_rewrite_of_plainExpand hok', h.rewrite_eq hok, ← eq_rewrite_of_plainExpand hok]

theorem Respells.exprDependsOn_iff (h : r.Respells expr expr') (u : Source) :
    r.ExprDependsOn expr .metric u ↔ r.ExprDependsOn expr' .metric u := by
  simp only [ExprDependsOn, not_reads_metric, h.mentions_iff]

theorem has_expand_iff {type : DefineType} {text : String}
    (h : (r.expand option expr type {}).1 = .ok text) (u : Source) :
    (r.expand option expr type {}).2.Has u ↔ r.ExprDependsOn expr type u := by
  have hrecords := (recordsOn r option []).expand (c := {}) rfl (settled_empty r option).covers expr
    type
  have hnone : ¬Context.Has {} u := by
    cases u <;> exact NameSet.not_mem_empty _
  exact ⟨fun hu => (hrecords.sound u hu).resolve_left hnone, hrecords.complete text h u⟩

/-- Names of metrics may be written in any case, each time they occur. The expansions in an empty
context both fail, or they have the same text and count the same measures and dimensions. -/
theorem expand_respelled (option : AggOption) (h : r.Respells expr expr') :
    let p := r.expand option expr .metric {}
    let q := r.expand option expr' .metric {}
    (∃ text, p.1 = .ok text ∧ q.1 = .ok text ∧ q.2.measures = p.2.measures ∧
      q.2.dimensions = p.2.dimensions) ∨
    (∃ e, p.1 = .error e) ∧ ∃ e, q.1 = .error e := by
  intro p q
  have hp : p.1 = r.plainExpand option expr .metric [] :=
    ((atRest_empty r option).expand expr .metric).result
  have hq : q.1 = r.plainExpand option expr' .metric [] :=
    ((atRest_empty r option).expand expr' .metric).result
  cases hplain : r.plainExpand option expr .metric [] with
  | ok text =>
    have hp' : p.1 = .ok text := hp.trans hplain
    have hq' : q.1 = .ok text := hq.trans (h.plainExpand_ok hplain)
    have hhas (u : Source) : q.2.Has u ↔ p.2.Has u := by
      rw [has_expand_iff hp', has_expand_iff hq', h.exprDependsOn_iff]
    exact .inl ⟨text, hp', hq', NameSet.eq_of_mem_iff fun n => hhas (.measure n),
      NameSet.eq_of_mem_iff fun n => hhas (.dimension n)⟩
  | error e =>
    obtain ⟨d, hd⟩ := h.plainExpand_error_iff.1 ⟨e, hplain⟩
    exact .inr ⟨⟨e, hp.trans hplain⟩, d, hq.trans hd⟩

theorem plainMetric_stock : stockRegistry.plainMetric .default stock [] = .ok "sum(amount)" := by
  have htexts : stockRegistry.measureTexts .default (columnRefs stock.expr).names =
      [("amount", "sum(amount)")] := by cbv
  have hrewrite : rewrite (fun n => [("amount", "sum(amount)")].lookup n) stock.expr =
      "sum(amount)" := by cbv
  rw [plainMetric_of_not_onChain (by decide), show stock.defineType = .measure from rfl,
    plainExpand, htexts]
  exact congrArg Except.ok hrewrite

theorem respells_stock :
    stockRegistry.Respells "stock - \x60Stock\x60" "STOCK - \x60stock\x60" := by
  have hafter : Splits " - \x60Stock\x60".toList
      ([' ', '-', ' '].map .other ++ [.quoted "Stock".toList true]) := splits_iff.2 (by cbv)
  have href := hafter.reference?_eq_some.1
    (show reference? (.word "stock".toList) _ = some "stock" by cbv)
  have hquoted : RefersTo (.quoted "Stock".toList true) [] "Stock" :=
    ⟨by cbv, by decide, not_opensCall_nil⟩
  refine ⟨.word "stock".toList :: ([' ', '-', ' '].map .other ++ [.quoted "Stock".toList true]),
    .word "STOCK".toList :: ([' ', '-', ' '].map .other ++ [.quoted "stock".toList true]),
    splits_iff.2 (by cbv), ?_, by cbv⟩
  exact .recase href (by decide) (.word (by decide))
    (.keep (.keep (.keep (.recase hquoted (by decide) (.quoted (by decide)) .nil))))

theorem expand_respelled_stock :
    let p := stockRegistry.expand .default "stock - \x60Stock\x60" .metric {}
    let q := stockRegistry.expand .default "STOCK - \x60stock\x60" .metric {}
    stockRegistry.Respells "stock - \x60Stock\x60" "STOCK - \x60stock\x60" ∧
      p.1 = .ok "sum(amount) - sum(amount)" ∧ q.1 = .ok "sum(amount) - sum(amount)" ∧
      q.2.measures = p.2.measures ∧ q.2.dimensions = p.2.dimensions := by
  intro p q
  have hnames : (columnRefs "stock - \x60Stock\x60").names = ["Stock", "stock"] := by cbv
  have hupper : stockRegistry.findMetric? "Stock" = some stock := by decide
  have hlower : stockRegistry.findMetric? "stock" = some stock := by decide
  have hrewrite : rewrite (fun n => [("Stock", "sum(amount)"), ("stock", "sum(amount)")].lookup n)
      "stock - \x60Stock\x60" = "sum(amount) - sum(amount)" := by cbv
  have hp : p.1 = .ok "sum(amount) - sum(amount)" := by
    rw [((atRest_empty stockRegistry .default).expand _ _).result, plainExpand_metric, hnames,
      plainTexts_cons_some hupper, plainTexts_cons_some hlower, plainMetric_stock, plainTexts]
    exact congrArg Except.ok hrewrite
  obtain ⟨text, hp', hq, hsources⟩ | ⟨⟨e, he⟩, -⟩ := expand_respelled .default respells_stock
  · obtain rfl := Except.ok.inj (hp'.symm.trans hp)
    exact ⟨respells_stock, hp, hq, hsources⟩
  · cases he.symm.trans hp

end MetricSql.Registry
