import MetricSql.Proofs.Statement.Derived

namespace MetricSql

namespace Registry

variable {r : Registry} {option : AggOption} {m : Metric} {c : Context} {column : String}
  {columns columns' : List String} {done : List (String × String)}

/-- The expansion of a column in an empty context, when the column asks for a derived metric. -/
def expansion? (r : Registry) (option : AggOption) (column : String) : Option String :=
  (r.derivedMetric? column).bind fun m => (r.expandMetric option m {}).1.toOption

theorem Expanded.lookup_eq (h : r.Expanded option done c)
    (hcolumn : (r.derivedMetric? column).isSome → (done.lookup column).isSome) :
    done.lookup column = r.expansion? option column := by
  rw [expansion?]
  cases ht : done.lookup column with
  | some text =>
    obtain ⟨m, hm, hplain, -⟩ := h.texts column text ht
    have hfind := (derivedMetric?_eq_some.mp hm).1
    have hfresh := ((atRest_empty r option).expandMetric hfind).result.trans hplain
    rw [hm, Option.bind_some, hfresh]
    rfl
  | none =>
    have hnone : r.derivedMetric? column = none := by
      by_contra hsome
      rw [ht] at hcolumn
      exact nomatch hcolumn (Option.isSome_iff_ne_none.mpr hsome)
    rw [hnone, Option.bind_none]

theorem derives_congr (h : ∀ column, column ∈ columns ↔ column ∈ columns') :
    r.Derives columns m ↔ r.Derives columns' m := by
  simp only [Derives, h]

def selectItem (r : Registry) (option : AggOption) (g : Aggregator) : String :=
  ((r.expansion? option g.column).map (· ++ " AS " ++ g.column)).getD g.text

def orderItem (r : Registry) (option : AggOption) (o : Order) : String :=
  (r.expansion? option o.column).getD o.column ++ " " ++ o.direction.text

end Registry

namespace Compiler

open Registry

variable {k : Compiler} {r : Registry} {q : Query} {a : Option Availability} {s : Statement}

theorem items_of_compile (hs : k.compile r q a = .ok s) :
    s.select = ",".intercalate (q.groups ++ q.aggregators.map (r.selectItem k.aggOption)) ∧
      s.orderBy = if q.orders = [] then ""
        else "order by " ++ ",".intercalate (q.orders.map (r.orderItem k.aggOption)) := by
  obtain ⟨texts, c, he, hselect, horder, -⟩ := compile_eq_ok hs
  obtain ⟨hexpanded, hall, -⟩ := expanded_of_ok he
  constructor
  · rw [hselect, Query.selectText, Query.joinItems]
    refine congrArg (fun items => ",".intercalate (q.groups ++ items))
      (List.map_congr_left fun g hg => ?_)
    have hcolumn : g.column ∈ q.columns := List.mem_append_left _ (List.mem_map_of_mem hg)
    rw [selectItem, ← hexpanded.lookup_eq (hall g.column hcolumn)]
  · rw [horder, Query.orderByText]
    refine congrArg (fun items => if q.orders = [] then "" else "order by " ++ ",".intercalate items)
      (List.map_congr_left fun o ho => ?_)
    have hcolumn : o.column ∈ q.columns := List.mem_append_right _ (List.mem_map_of_mem ho)
    rw [orderItem, ← hexpanded.lookup_eq (hall o.column hcolumn)]

/-- Compilation does not depend on the order of the columns. In any order of its aggregates and of
its orders a query has a statement or leads to a cycle, and the statements have the same items, in
the order that was asked for, and agree in all other clauses and in the sources. -/
theorem compile_perm (k : Compiler) (r : Registry) (a : Option Availability) (q : Query)
    (aggregators : List Aggregator) (orders : List Order)
    (haggregators : aggregators.Perm q.aggregators) (horders : orders.Perm q.orders) :
    let q' := { q with aggregators, orders }
    ((∃ s s', k.compile r q a = .ok s ∧ k.compile r q' a = .ok s') ∨
      ∃ e e', k.compile r q a = .error e ∧ k.compile r q' a = .error e') ∧
    ∀ s s', k.compile r q a = .ok s → k.compile r q' a = .ok s' →
      s'.whereClause = s.whereClause ∧ s'.groupBy = s.groupBy ∧ s'.limit = s.limit ∧
      s'.range = s.range ∧ s'.measures = s.measures ∧ s'.dimensions = s.dimensions ∧
      (s.select = ",".intercalate (q.groups ++ q.aggregators.map (r.selectItem k.aggOption)) ∧
        s'.select = ",".intercalate (q.groups ++ aggregators.map (r.selectItem k.aggOption))) ∧
      (s.orderBy = if q.orders = [] then ""
        else "order by " ++ ",".intercalate (q.orders.map (r.orderItem k.aggOption))) ∧
      s'.orderBy = if orders = [] then ""
        else "order by " ++ ",".intercalate (orders.map (r.orderItem k.aggOption)) := by
  intro q'
  have hcolumns (column : String) : column ∈ q'.columns ↔ column ∈ q.columns :=
    ((haggregators.map _).append (horders.map _)).mem_iff
  have hderives (m : Metric) : r.Derives q'.columns m ↔ r.Derives q.columns m :=
    derives_congr hcolumns
  refine ⟨?_, fun s s' hs hs' => ?_⟩
  · have hiff : (∃ s, k.compile r q a = .ok s) ↔ ∃ s', k.compile r q' a = .ok s' := by
      simp only [exists_compile_iff, hderives]
    cases hs : k.compile r q a with
    | ok s =>
      obtain ⟨s', hs'⟩ := hiff.mp ⟨s, hs⟩
      exact .inl ⟨s, s', rfl, hs'⟩
    | error e =>
      cases hs' : k.compile r q' a with
      | ok s' =>
        obtain ⟨s, hok⟩ := hiff.mpr ⟨s', hs'⟩
        exact nomatch hs.symm.trans hok
      | error e' => exact .inr ⟨e, e', rfl, rfl⟩
  · obtain ⟨-, -, -, -, -, hwhere, hgroup, hlimit, hrange, -⟩ := compile_eq_ok hs
    obtain ⟨-, -, -, -, -, hwhere', hgroup', hlimit', hrange', -⟩ := compile_eq_ok hs'
    obtain ⟨hselect, horder⟩ := items_of_compile hs
    obtain ⟨hselect', horder'⟩ := items_of_compile hs'
    obtain ⟨hmeasures, hdimensions⟩ := sources_of_compile hs
    obtain ⟨hmeasures', hdimensions'⟩ := sources_of_compile hs'
    refine ⟨hwhere'.trans hwhere.symm, hgroup'.trans hgroup.symm, hlimit'.trans hlimit.symm,
      hrange'.trans hrange.symm, NameSet.eq_of_mem_iff fun n => ?_,
      NameSet.eq_of_mem_iff fun n => ?_, ⟨hselect, hselect'⟩, horder, horder'⟩
    · simp only [hmeasures', hmeasures, hderives]
    · simp only [hdimensions', hdimensions, hderives]

theorem compile_perm_mixedQuery :
    let k : Compiler := { rules := { today := ⟨2024, 3, 15, by decide, by decide, by decide⟩ } }
    let aggregators : List Aggregator := [⟨.max, "price", []⟩, ⟨.sum, "Margin", []⟩]
    let orders : List Order := [⟨"revenue", .asc⟩, ⟨"margin", .desc⟩]
    aggregators.Perm mixedQuery.aggregators ∧ orders.Perm mixedQuery.orders ∧
      ∃ s s', k.compile marginRegistry mixedQuery none = .ok s ∧
        k.compile marginRegistry { mixedQuery with aggregators, orders } none = .ok s' ∧
        s'.measures = s.measures ∧ s'.dimensions = s.dimensions ∧
        s.select = "city" ++ "," ++ marginRegistry.selectItem .default ⟨.sum, "Margin", []⟩ ++ "," ++
          marginRegistry.selectItem .default ⟨.max, "price", []⟩ ∧
        s'.select = "city" ++ "," ++ marginRegistry.selectItem .default ⟨.max, "price", []⟩ ++ "," ++
          marginRegistry.selectItem .default ⟨.sum, "Margin", []⟩ := by
  intro k aggregators orders
  have haggregators : aggregators.Perm mixedQuery.aggregators := .swap _ _ _
  have horders : orders.Perm mixedQuery.orders := .swap _ _ _
  obtain ⟨s, hs⟩ := (exists_compile_iff (k := k) (a := none)).mpr fun m hm =>
    eq_margin_of_derives hm ▸ margin_not_reachesCycle
  obtain ⟨⟨s, s', hs, hs'⟩ | ⟨e, -, he, -⟩, hagree⟩ :=
    compile_perm k marginRegistry none mixedQuery aggregators orders haggregators horders
  · obtain ⟨-, -, -, -, hmeasures, hdimensions, ⟨hselect, hselect'⟩, -⟩ := hagree s s' hs hs'
    exact ⟨haggregators, horders, s, s', hs, hs', hmeasures, hdimensions, hselect, hselect'⟩
  · exact nomatch hs.symm.trans he

end Compiler

end MetricSql
