import MetricSql.Proofs.Expansion.Balance
import MetricSql.Proofs.Expression.QuotedNames

namespace MetricSql.Registry

open Text MetricSql.Expr

variable {r : Registry} {option : AggOption} {names : List String} {m : Measure} {n : String}

def isMeasure (r : Registry) (n : String) : Bool := (r.findMeasure? n).isSome

theorem lookup_measureTexts (hn : n ∈ names ∨ r.findMeasure? n = none) :
    (r.measureTexts option names).lookup n = (r.findMeasure? n).map (·.text option) := by
  induction names with
  | nil =>
    obtain hn | hn := hn
    · cases hn
    · rw [hn]
      rfl
  | cons k names ih =>
    cases hk : r.findMeasure? k with
    | none =>
      have hrest : n ∈ names ∨ r.findMeasure? n = none := by
        obtain hn | hn := hn
        · obtain rfl | hn := List.mem_cons.1 hn
          · exact .inr hk
          · exact .inl hn
        · exact .inr hn
      rw [← ih hrest]
      simp [measureTexts, hk]
    | some m =>
      have hcons : r.measureTexts option (k :: names) =
          (k, m.text option) :: r.measureTexts option names := by
        simp [measureTexts, hk]
      rw [hcons]
      by_cases hnk : n = k
      · rw [hnk, hk, List.lookup_cons_self, Option.map_some]
      · have hne : (n == k) = false := by simpa using hnk
        rw [List.lookup_cons, hne]
        exact ih (hn.imp_left fun hn => (List.mem_cons.1 hn).resolve_left hnk)

theorem text_native (h : r.findMeasure? n = some m) : m.text .native = n := by
  have hname := List.find?_some h
  simpa [Measure.text] using hname

theorem expand_native (r : Registry) (expr : String) (c : Context) :
    (r.expand .native expr .measure c).1 = .ok (rewrite (asItself r.isMeasure) expr) := by
  rw [expand_measure]
  refine congrArg (fun s => Except.ok (String.ofList s)) (rewriteTokens_congr (fun n hn => ?_) true)
  rw [lookup_measureTexts (.inl (mem_columnRefs.2 hn)), asItself, isMeasure]
  cases hm : r.findMeasure? n with
  | none => rfl
  | some m => rw [Option.map_some, text_native hm]; rfl

/-- A name in backticks is the one name that an expression refers to, unless it is a keyword. Native
measures leave an expression with the same references where those in backticks can do without these,
and a measure that stands alone in backticks can exactly if it has the form of a bare name. -/
theorem native_keeps_references (r : Registry) (c : Context) :
    (∀ n, backtick ∉ n.toList →
      ∀ k, k ∈ columnRefs (inBackticks n) ↔ k = n ∧ isKeyword n.toList = false) ∧
    (∀ expr, (∀ ts, Splits expr.toList ts → AllApart r.isMeasure ts) →
      ∃ text, (r.expand .native expr .measure c).1 = .ok text ∧
        columnRefs text = columnRefs expr) ∧
    ∀ n, backtick ∉ n.toList → isKeyword n.toList = false → (r.findMeasure? n).isSome = true →
      ∃ text, (r.expand .native (inBackticks n) .measure c).1 = .ok text ∧
        (columnRefs text = columnRefs (inBackticks n) ↔ Arithmetic.isName n.toList = true) := by
  refine ⟨fun n hn => mem_columnRefs_inBackticks hn, fun expr happart => ?_, fun n hn hkey hm => ?_⟩
  · exact ⟨_, expand_native r expr c, columnRefs_rewrite_asItself happart⟩
  · exact ⟨_, expand_native r (inBackticks n) c, columnRefs_rewrite_inBackticks_iff hn hkey hm⟩

def salesRegistry : Registry where
  measures := [⟨"pv", .sum, none, none⟩, ⟨"net sales", .sum, none, none⟩]

theorem allApart_sales (ts : List Token) (hts : Splits "2*`pv`/`city`".toList ts) :
    AllApart salesRegistry.isMeasure ts := by
  have hscan : scan "2*`pv`/`city`".toList = [.number ['2'], .other '*',
      .quoted ['p', 'v'] true, .other '/', .quoted "city".toList true] := by cbv
  rw [splits_iff.1 hts, hscan]
  intro before n closed after h _ hp
  have hcases : before = [.number ['2'], .other '*'] ∧ n = ['p', 'v'] ∧
      after = [.other '/', .quoted "city".toList true] ∨ n = "city".toList := by
    simp [List.cons_eq_append_iff] at h
    grind
  obtain ⟨rfl, rfl, rfl⟩ | rfl := hcases
  · exact ⟨by decide, by simp, by simp [Token.text, backtick, isWordChar]⟩
  · exact absurd hp (by decide)

theorem native_keeps_references_sales :
    (backtick ∉ "net sales".toList ∧ "net sales" ∈ columnRefs (inBackticks "net sales")) ∧
    ((∀ ts, Splits "2*`pv`/`city`".toList ts → AllApart salesRegistry.isMeasure ts) ∧
      (salesRegistry.expand .native "2*`pv`/`city`" .measure {}).1 =
        .ok "2*pv/`city`" ∧
      columnRefs "2*pv/`city`" = columnRefs "2*`pv`/`city`") ∧
    (isKeyword "net sales".toList = false ∧ (salesRegistry.findMeasure? "net sales").isSome = true ∧
      ∃ text, (salesRegistry.expand .native (inBackticks "net sales") .measure {}).1 = .ok text ∧
        columnRefs text ≠ columnRefs (inBackticks "net sales")) := by
  obtain ⟨hlone, hkept, hlost⟩ := native_keeps_references salesRegistry {}
  have hback : backtick ∉ "net sales".toList := by decide
  have hkey : isKeyword "net sales".toList = false := by decide
  have hmeasure : (salesRegistry.findMeasure? "net sales").isSome = true := by decide
  refine ⟨⟨hback, (hlone _ hback _).2 ⟨rfl, hkey⟩⟩, ⟨allApart_sales, ?_⟩, hkey, hmeasure, ?_⟩
  · obtain ⟨text, htext, hrefs⟩ := hkept _ allApart_sales
    have hresult : (salesRegistry.expand .native "2*`pv`/`city`" .measure {}).1 =
        .ok "2*pv/`city`" := by
      rw [expand_native]
      cbv
    obtain rfl := Except.ok.inj (htext.symm.trans hresult)
    exact ⟨hresult, hrefs⟩
  · obtain ⟨text, htext, hrefs⟩ := hlost _ hback hkey hmeasure
    exact ⟨text, htext, hrefs.not.2 (by decide)⟩

/-- A keyword in backticks refers to nothing, a name that is no bare name falls into other names, and
one that nothing divides from a bare name becomes part of it. -/
theorem native_loses_references :
    (columnRefs (inBackticks "end")).names = [] ∧
    ((salesRegistry.expand .native (inBackticks "net sales") .measure {}).1 = .ok "net sales" ∧
      (columnRefs (inBackticks "net sales")).names = ["net sales"] ∧
      (columnRefs "net sales").names = ["net", "sales"]) ∧
    ((salesRegistry.expand .native "t.`pv`" .measure {}).1 = .ok "t.pv" ∧
      (columnRefs "t.`pv`").names = ["pv", "t."] ∧ (columnRefs "t.pv").names = ["t.pv"]) := by
  simp only [expand_native]
  exact ⟨by cbv, ⟨by cbv, by cbv, by cbv⟩, by cbv, by cbv, by cbv⟩

end MetricSql.Registry
