import MetricSql.Metric.Expansion
import MetricSql.Proofs.Expansion.Graph

namespace MetricSql.Registry

open Text Relation

variable {r : Registry} {option : AggOption} {m x : Metric} {name : String} {chain : List String}

def onChain (chain : List String) (name : String) : Bool := chain.any (sameName · name)

mutual

/-- Expands an expression without any memory: every name is expanded anew, and only the chain of
metrics that led to the expression is kept. -/
def plainExpand (r : Registry) (option : AggOption) (expr : String) (type : DefineType)
    (chain : List String) : Except Cycle String :=
  let refs := (Expr.columnRefs expr).names
  match type with
  | .field => .ok expr
  | .measure => .ok (Expr.rewrite (fun n => (r.measureTexts option refs).lookup n) expr)
  | .metric =>
    match plainTexts r option refs chain with
    | .ok texts => .ok (Expr.rewrite (fun n => texts.lookup n) expr)
    | .error e => .error e
termination_by (r.pending { chain }, 1, 0)

def plainTexts (r : Registry) (option : AggOption) (refs : List String) (chain : List String) :
    Except Cycle (List (String × String)) :=
  match refs with
  | [] => .ok []
  | n :: refs =>
    match _hm : r.findMetric? n with
    | none => plainTexts r option refs chain
    | some m =>
      if _hc : onChain chain m.bizName = true then .error ⟨m.bizName, chain ++ [m.bizName]⟩
      else
        match plainExpand r option m.expr m.defineType (chain ++ [m.bizName]) with
        | .error e => .error e
        | .ok text =>
          match plainTexts r option refs chain with
          | .ok texts => .ok ((n, text) :: texts)
          | .error e => .error e
termination_by (r.pending { chain }, 0, refs.length)
decreasing_by
  · exact Prod.Lex.right _ (Prod.Lex.right _ (Nat.lt_succ_self _))
  · exact Prod.Lex.left _ _ (pending_enter_lt (c := { chain }) _hm _hc)
  · exact Prod.Lex.right _ (Prod.Lex.right _ (Nat.lt_succ_self _))

end

def plainMetric (r : Registry) (option : AggOption) (m : Metric) (chain : List String) :
    Except Cycle String :=
  if onChain chain m.bizName = true then .error ⟨m.bizName, chain ++ [m.bizName]⟩
  else r.plainExpand option m.expr m.defineType (chain ++ [m.bizName])

/-- Chains grow only by metrics that are not on them, so they cannot grow for ever. -/
theorem chain_induction {P : List String → Prop}
    (step : ∀ chain, (∀ name m, r.findMetric? name = some m → ¬onChain chain m.bizName = true →
      P (chain ++ [m.bizName])) → P chain) (chain : List String) : P chain := by
  induction hn : r.pending { chain } using Nat.strongRecOn generalizing chain with
  | ind n ih =>
    subst hn
    refine step chain fun name m hm hc => ?_
    exact ih _ (pending_enter_lt (c := { chain }) hm hc) _ rfl

theorem plainExpand_metric (expr : String) (chain : List String) :
    r.plainExpand option expr .metric chain =
      (r.plainTexts option (Expr.columnRefs expr).names chain).map
        fun texts => Expr.rewrite (fun n => texts.lookup n) expr := by
  rw [plainExpand]
  cases r.plainTexts option (Expr.columnRefs expr).names chain <;> rfl

theorem plainTexts_cons_none {n : String} (hm : r.findMetric? n = none) (refs chain : List String) :
    r.plainTexts option (n :: refs) chain = r.plainTexts option refs chain := by
  rw [plainTexts]
  split
  · rfl
  · next m k => simp [hm] at k

theorem plainTexts_cons_some {n : String} (hm : r.findMetric? n = some m)
    (refs chain : List String) :
    r.plainTexts option (n :: refs) chain =
      (r.plainMetric option m chain).bind fun text =>
        (r.plainTexts option refs chain).map fun texts => (n, text) :: texts := by
  rw [plainTexts]
  split
  · next k => simp [hm] at k
  · next x k =>
    obtain rfl : m = x := Option.some.inj (hm.symm.trans k)
    unfold plainMetric
    by_cases hc : onChain chain m.bizName = true
    · simp only [hc, dite_true, if_true]
      rfl
    · simp only [hc]
      cases r.plainExpand option m.expr m.defineType (chain ++ [m.bizName]) with
      | error e => rfl
      | ok text => cases r.plainTexts option refs chain <;> rfl

theorem plainTexts_error {refs : List String} {e : Cycle}
    (h : r.plainTexts option refs chain = .error e) :
    ∃ n ∈ refs, ∃ m, r.findMetric? n = some m ∧ r.plainMetric option m chain = .error e := by
  induction refs with
  | nil => simp [plainTexts] at h
  | cons n refs ih =>
    cases hm : r.findMetric? n with
    | none =>
      rw [plainTexts_cons_none hm] at h
      obtain ⟨k, hk, x, hx⟩ := ih h
      exact ⟨k, List.mem_cons_of_mem _ hk, x, hx⟩
    | some m =>
      rw [plainTexts_cons_some hm] at h
      cases ht : r.plainMetric option m chain with
      | error d =>
        obtain rfl : d = e := by simpa [ht, Except.bind] using h
        exact ⟨n, List.mem_cons_self, m, hm, ht⟩
      | ok text =>
        cases hs : r.plainTexts option refs chain with
        | error d =>
          obtain rfl : d = e := by simpa [ht, hs, Except.bind, Except.map] using h
          obtain ⟨k, hk, x, hx⟩ := ih hs
          exact ⟨k, List.mem_cons_of_mem _ hk, x, hx⟩
        | ok texts => simp [ht, hs, Except.bind, Except.map] at h

theorem plainTexts_cons_ok {n : String} {refs : List String} {texts : List (String × String)}
    (hm : r.findMetric? n = some m) (h : r.plainTexts option (n :: refs) chain = .ok texts) :
    ∃ text rest, r.plainMetric option m chain = .ok text ∧
      r.plainTexts option refs chain = .ok rest ∧ texts = (n, text) :: rest := by
  rw [plainTexts_cons_some hm] at h
  cases ht : r.plainMetric option m chain with
  | error d => simp [ht, Except.bind] at h
  | ok text =>
    cases hs : r.plainTexts option refs chain with
    | error d => simp [ht, hs, Except.bind, Except.map] at h
    | ok rest => exact ⟨text, rest, rfl, rfl, by simpa [ht, hs, Except.bind, Except.map] using h.symm⟩

theorem plainMetric_ok_of_plainTexts {refs : List String} {texts : List (String × String)}
    (h : r.plainTexts option refs chain = .ok texts) {n : String} (hn : n ∈ refs)
    (hm : r.findMetric? n = some m) : ∃ text, r.plainMetric option m chain = .ok text := by
  induction refs generalizing texts with
  | nil => simp at hn
  | cons k refs ih =>
    cases hk : r.findMetric? k with
    | none =>
      rw [plainTexts_cons_none hk] at h
      obtain rfl | hn := List.mem_cons.mp hn
      · simp [hk] at hm
      · exact ih h hn
    | some x =>
      obtain ⟨text, rest, hx, hrest, -⟩ := plainTexts_cons_ok hk h
      obtain rfl | hn := List.mem_cons.mp hn
      · obtain rfl : x = m := Option.some.inj (hk.symm.trans hm)
        exact ⟨text, hx⟩
      · exact ih hrest hn

theorem plainTexts_unique {refs chain' : List String} {texts texts' : List (String × String)}
    (h : r.plainTexts option refs chain = .ok texts)
    (h' : r.plainTexts option refs chain' = .ok texts')
    (heq : ∀ n m, r.findMetric? n = some m → ∀ text text', r.plainMetric option m chain = .ok text →
      r.plainMetric option m chain' = .ok text' → text = text') : texts = texts' := by
  induction refs generalizing texts texts' with
  | nil =>
    rw [plainTexts] at h h'
    exact (Except.ok.inj h).symm.trans (Except.ok.inj h')
  | cons n refs ih =>
    cases hm : r.findMetric? n with
    | none =>
      rw [plainTexts_cons_none hm] at h h'
      exact ih h h'
    | some m =>
      obtain ⟨text, rest, ht, hs, rfl⟩ := plainTexts_cons_ok hm h
      obtain ⟨text', rest', ht', hs', rfl⟩ := plainTexts_cons_ok hm h'
      rw [heq n m hm text text' ht ht', ih hs hs']

/-- Every metric of the chain leads to the metric by references. -/
def LeadsTo (r : Registry) (chain : List String) (m : Metric) : Prop :=
  ∀ n ∈ chain, ∃ x, r.findMetric? n = some x ∧ TransGen r.Refers x m

theorem leadsTo_nil (r : Registry) (m : Metric) : r.LeadsTo [] m := by simp [LeadsTo]

theorem LeadsTo.append (h : r.LeadsTo chain m) (hm : r.findMetric? m.bizName = some m)
    (hx : r.Refers m x) : r.LeadsTo (chain ++ [m.bizName]) x := by
  intro n hn
  obtain hn | hn := List.mem_append.mp hn
  · obtain ⟨y, hy, hym⟩ := h n hn
    exact ⟨y, hy, hym.tail hx⟩
  · obtain rfl : n = m.bizName := List.mem_singleton.mp hn
    exact ⟨m, hm, .single hx⟩

theorem plainMetric_of_not_onChain (hc : ¬onChain chain m.bizName = true) :
    r.plainMetric option m chain =
      r.plainExpand option m.expr m.defineType (chain ++ [m.bizName]) :=
  if_neg hc

theorem not_onChain_of_ok {text : String} (h : r.plainMetric option m chain = .ok text) :
    ¬onChain chain m.bizName = true := by
  intro hc
  simp [plainMetric, hc] at h

theorem plainExpand_error {expr : String} {type : DefineType} {e : Cycle}
    (h : r.plainExpand option expr type chain = .error e) :
    type = .metric ∧ ∃ m, r.Mentions expr m ∧ r.plainMetric option m chain = .error e := by
  cases type with
  | field => simp [plainExpand] at h
  | measure => simp [plainExpand] at h
  | metric =>
    refine ⟨rfl, ?_⟩
    rw [plainExpand_metric] at h
    cases ht : r.plainTexts option (Expr.columnRefs expr).names chain with
    | ok texts => simp [ht, Except.map] at h
    | error d =>
      obtain rfl : d = e := by simpa [ht, Except.map] using h
      obtain ⟨n, hn, m, hm, hd⟩ := plainTexts_error ht
      exact ⟨m, ⟨n, hn, hm⟩, hd⟩

theorem plainExpand_ok {expr text : String} (h : r.plainExpand option expr .metric chain = .ok text)
    (hm : r.Mentions expr m) : ∃ text, r.plainMetric option m chain = .ok text := by
  rw [plainExpand_metric] at h
  cases ht : r.plainTexts option (Expr.columnRefs expr).names chain with
  | error e => simp [ht, Except.map] at h
  | ok texts =>
    obtain ⟨n, hn, hm⟩ := hm
    exact plainMetric_ok_of_plainTexts ht hn hm

theorem plainExpand_unique {expr text text' : String} {type : DefineType} {chain' : List String}
    (h : r.plainExpand option expr type chain = .ok text)
    (h' : r.plainExpand option expr type chain' = .ok text')
    (heq : ∀ n m, r.findMetric? n = some m → ∀ text text', r.plainMetric option m chain = .ok text →
      r.plainMetric option m chain' = .ok text' → text = text') : text = text' := by
  cases type with
  | field | measure =>
    rw [plainExpand] at h h'
    exact (Except.ok.inj h).symm.trans (Except.ok.inj h')
  | metric =>
    rw [plainExpand_metric] at h h'
    cases hs : r.plainTexts option (Expr.columnRefs expr).names chain with
    | error e => simp [hs, Except.map] at h
    | ok texts =>
      cases hs' : r.plainTexts option (Expr.columnRefs expr).names chain' with
      | error e => simp [hs', Except.map] at h'
      | ok texts' =>
        obtain rfl := plainTexts_unique hs hs' heq
        rw [hs] at h
        rw [hs'] at h'
        exact (Except.ok.inj h).symm.trans (Except.ok.inj h')

/-- A metric is reported only when it leads to a cycle: the metric that is met again is the one on
the chain, which led to it. -/
theorem reachesCycle_of_error (hm : r.findMetric? m.bizName = some m) (h : r.LeadsTo chain m)
    {e : Cycle} (he : r.plainMetric option m chain = .error e) : r.ReachesCycle m := by
  induction chain using chain_induction (r := r) generalizing m with
  | step chain ih =>
    by_cases hc : onChain chain m.bizName = true
    · -- the name on the chain may be spelled in another way, but it finds the same metric
      obtain ⟨n, hn, hnm⟩ := List.any_eq_true.mp hc
      obtain ⟨x, hx, hxm⟩ := h n hn
      obtain rfl := eq_of_findMetric? hm hx hnm
      exact ⟨x, .refl, hxm⟩
    · rw [plainMetric_of_not_onChain hc] at he
      obtain ⟨htype, x, hx, hxe⟩ := plainExpand_error he
      have hmx : r.Refers m x := ⟨htype, hx⟩
      obtain ⟨n, -, hn⟩ := hx
      exact (ih _ m hm hc (findMetric?_bizName hn) (h.append hm hmx) hxe).of_refers hmx

/-- A metric that could be expanded does not lead to a cycle: all that it refers to was expanded. -/
theorem not_reachesCycle_of_ok (hm : r.findMetric? m.bizName = some m) {text : String}
    (ht : r.plainMetric option m chain = .ok text) : ¬r.ReachesCycle m := by
  induction chain using chain_induction (r := r) generalizing m text with
  | step chain ih =>
    have hc := not_onChain_of_ok ht
    rw [plainMetric_of_not_onChain hc] at ht
    refine not_reachesCycle fun x hmx => ?_
    obtain ⟨htype, hx⟩ := hmx
    rw [htype] at ht
    obtain ⟨text', hx'⟩ := plainExpand_ok ht hx
    obtain ⟨n, -, hn⟩ := hx
    exact ih _ m hm hc (findMetric?_bizName hn) hx'

theorem plainMetric_unique {chain' : List String} (hm : r.findMetric? m.bizName = some m)
    {text text' : String} (h : r.plainMetric option m chain = .ok text)
    (h' : r.plainMetric option m chain' = .ok text') : text = text' := by
  induction chain using chain_induction (r := r) generalizing m chain' text text' with
  | step chain ih =>
    have hc := not_onChain_of_ok h
    rw [plainMetric_of_not_onChain hc] at h
    rw [plainMetric_of_not_onChain (not_onChain_of_ok h')] at h'
    refine plainExpand_unique h h' fun n x hx text text' ht ht' => ?_
    exact ih _ m hm hc (findMetric?_bizName hx) ht ht'

/-- What can be expanded below one chain can be expanded below every other that leads to it. -/
theorem plainMetric_ok_of_leadsTo {chain' : List String} (hm : r.findMetric? m.bizName = some m)
    (h : r.LeadsTo chain' m) {text : String} (ht : r.plainMetric option m chain = .ok text) :
    r.plainMetric option m chain' = .ok text := by
  cases hc : r.plainMetric option m chain' with
  | error e => exact absurd (reachesCycle_of_error hm h hc) (not_reachesCycle_of_ok hm ht)
  | ok text' => rw [plainMetric_unique hm hc ht]

theorem plainMetric_error_iff (hm : r.findMetric? m.bizName = some m) :
    (∃ e, r.plainMetric option m [] = .error e) ↔ r.ReachesCycle m := by
  constructor
  · rintro ⟨e, he⟩
    exact reachesCycle_of_error hm (leadsTo_nil r m) he
  · intro hcycle
    cases ht : r.plainMetric option m [] with
    | error e => exact ⟨e, rfl⟩
    | ok text => exact absurd hcycle (not_reachesCycle_of_ok hm ht)

end MetricSql.Registry
