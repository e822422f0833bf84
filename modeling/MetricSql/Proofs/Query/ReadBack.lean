import Mathlib
import MetricSql.Proofs.Json.KeyOrder
import MetricSql.Query.Decode
import MetricSql.Query.Encode

namespace MetricSql

open DataNode Json

variable {α β : Type} {names : List String} {closed : Bool}

/-- Each name is read as the value that it was written for. -/
class LawfulNamed (α : Type) [Named α] : Prop where
  ofName?_name : ∀ a : α, ofName? (Named.name a) = some a

instance : LawfulNamed AggregateFunction := ⟨fun a => by cases a <;> rfl⟩

instance : LawfulNamed SortDirection := ⟨fun a => by cases a <;> rfl⟩

instance : LawfulNamed Comparison := ⟨fun a => by cases a <;> rfl⟩

instance : LawfulNamed WindowMode := ⟨fun a => by cases a <;> rfl⟩

instance : LawfulNamed Period := ⟨fun a => by cases a <;> rfl⟩

namespace Json.Value

theorem addFields?_of_new {done fields : List (String × Tree)} (hknown : ∀ f ∈ fields, f.1 ∈ names)
    (hnodup : ((done ++ fields).map Prod.fst).Nodup) :
    Tree.addFields? names closed done (fields.map fun f => (some f.1, f.2)) =
      some (done ++ fields) := by
  induction fields generalizing done with
  | nil => rw [List.append_nil]; rfl
  | cons f fields ih =>
    have hlookup : done.lookup f.1 = none := by
      rw [List.map_append, List.map_cons] at hnodup
      refine List.lookup_eq_none_iff.2 fun g hg => ?_
      have hne := (List.nodup_append.1 hnodup).2.2 _ (List.mem_map_of_mem hg) _ List.mem_cons_self
      simpa using hne.symm
    have hadd : addField? names closed done f.1 f.2 = some (done ++ [f]) := by
      simp [addField?, hknown f List.mem_cons_self, hlookup]
    rw [List.append_cons] at hnodup ⊢
    rw [List.map_cons, Tree.addFields?, hadd]
    exact ih (fun g hg => hknown g (List.mem_cons_of_mem _ hg)) hnodup

theorem fields?_tree {fields : List (String × Value)} (hnames : fields.map Prod.fst = names)
    (hnodup : names.Nodup) :
    fields? names closed (object fields).tree =
      some ⟨fields.map fun f => (f.1, f.2.tree), false⟩ := by
  have hkeys : (fields.map fun f => (f.1, f.2.tree)).map Prod.fst = names := by
    rw [List.map_map, ← hnames]
    rfl
  have hadd : Tree.addFields? names closed []
      ((fields.map fun f => (f.1, f.2.tree)).map fun f => (some f.1, f.2)) =
        some (fields.map fun f => (f.1, f.2.tree)) :=
    addFields?_of_new (fun f hf => hkeys ▸ List.mem_map_of_mem hf) (by rwa [List.nil_append, hkeys])
  rw [List.map_map] at hadd
  rw [tree]
  exact congrArg (Option.map fun entries => (⟨entries, false⟩ : Fields Tree)) hadd

theorem text?_tree (s : String) : text? (string s).tree = some s := by
  rw [tree]
  rfl

theorem named?_tree [Named α] [LawfulNamed α] (a : α) : named? (encodeName a).tree = some a := by
  rw [encodeName, tree]
  exact LawfulNamed.ofName?_name a

theorem integer?_tree (n : Int) : integer? (number (.integer n)).tree = some n := by
  have hvalue : Nat.ofDigitChars 10 (integerLexeme n).whole 0 = n.natAbs :=
    Nat.ofDigitChars_ten_toDigits
  have hsign : (integerLexeme n).negative = decide (n < 0) := rfl
  have hfraction : (integerLexeme n).fraction = [] := rfl
  have hexponent : (integerLexeme n).exponent = none := rfl
  rw [tree, lexeme_integer]
  change Tree.integer? _ = _
  rw [Tree.integer?, hvalue, hsign, hfraction, hexponent]
  generalize hm : n.natAbs = m
  by_cases hn : n < 0
  · have hne : m ≠ 0 := by omega
    have hneg : -(m : Int) = n := by omega
    simp [hn, hne, hneg]
  · have hpos : (m : Int) = n := by omega
    simp [hn, hpos]

theorem word32?_tree (n : UInt32) : word32? (ofNat n.toNat).tree = some n := by
  have hlt : (n.toNat : Int) < Int.pow 2 32 := Int.ofNat_lt.2 n.toNat_lt
  rw [word32?, ofNat, integer?_tree, Option.bind_some, if_pos ⟨Int.natCast_nonneg _, hlt⟩,
    Int.toNat_natCast, UInt32.ofNat_toNat]

theorem int64?_tree (n : Int64) : int64? (number (.integer n.toInt)).tree = some n := by
  rw [int64?, integer?_tree, Option.bind_some, if_pos ⟨n.le_toInt, n.toInt_lt⟩, Int64.ofInt_toInt]

theorem list?_tree {read : Tree → Option β} {write : α → Value} {g : α → β} {l : List α}
    (h : ∀ a ∈ l, read (write a).tree = some (g a)) :
    list? read (array (l.map write)).tree = some (l.map g) := by
  rw [tree, List.map_map]
  change (l.map (tree ∘ write)).mapM read = _
  rw [List.mapM_map]
  exact Text.mapM_eq_some h

theorem list?_tree_self {read : Tree → Option α} {write : α → Value}
    (h : ∀ a, read (write a).tree = some a) (l : List α) :
    list? read (array (l.map write)).tree = some l := by
  have hl : list? read (array (l.map write)).tree = some (l.map id) := list?_tree fun a _ => h a
  rwa [List.map_id] at hl

theorem texts?_tree (l : List String) : texts? (strings l).tree = some l :=
  list?_tree_self text?_tree l

end Json.Value

theorem Aggregator.decode?_encode (a : Aggregator) : Aggregator.decode? a.encode.tree = some a := by
  rw [Aggregator.decode?, Aggregator.encode, Value.fields?_tree (by rfl) (by decide)]
  simp [Fields.required, Fields.withDefault, Fields.find?, List.lookup_cons, Value.named?_tree,
    Value.text?_tree, Value.texts?_tree]

theorem Order.decode?_encode (o : Order) : Order.decode? o.encode.tree = some o := by
  rw [Order.decode?, Order.encode, Value.fields?_tree (by rfl) (by decide)]
  simp [Fields.required, Fields.find?, List.lookup_cons, Value.named?_tree, Value.text?_tree]

def Filter.ordered (f : Filter) : Filter := { f with value := f.value.ordered }

theorem Filter.decode?_encode {f : Filter} (h : f.value.Exact) (hd : f.value.depth ≤ valueDepth) :
    Filter.decode? f.encode.tree = some f.ordered := by
  rw [Filter.decode?, Filter.encode, Value.fields?_tree (by rfl) (by decide)]
  simp [Fields.required, Fields.find?, List.lookup_cons, Value.named?_tree, Value.text?_tree,
    h.ofTree?_tree hd, ordered]

theorem Fields.optional_eq_some {f : Fields Tree} {name : String} {read : Tree → Option α}
    {o : Option α} {v : Value} (hfind : f.find? name = some v.tree) (hnone : o = none → v = .null)
    (hsome : ∀ a, o = some a → v ≠ .null ∧ read v.tree = some a) :
    f.optional name read = some o := by
  rw [optional, hfind]
  cases o with
  | none =>
    rw [hnone rfl, Value.tree]
    rfl
  | some a =>
    obtain ⟨hv, hread⟩ := hsome a rfl
    have habsent : isAbsent? v.tree = some false := by
      cases v <;> first | exact absurd rfl hv | (rw [Value.tree]; rfl)
    simp [habsent, hread]

theorem Fields.optional_ofOption {f : Fields Tree} {name : String} (s : Option String)
    (hfind : f.find? name = some (Value.ofOption s).tree) : f.optional name text? = some s := by
  refine optional_eq_some hfind (fun hs => by rw [hs]; rfl) fun a ha => ?_
  rw [ha]
  exact ⟨Value.noConfusion, Value.text?_tree a⟩

theorem Window.decode?_encode (w : Window) : Window.decode? w.encode.tree = some w := by
  rw [Window.decode?, Window.encode, Value.fields?_tree (by rfl) (by decide), Option.bind_eq_bind,
    Option.bind_some,
    Fields.optional_ofOption w.dateField (by simp [Fields.find?, List.lookup_cons]),
    Fields.optional_ofOption w.startDate (by simp [Fields.find?, List.lookup_cons]),
    Fields.optional_ofOption w.endDate (by simp [Fields.find?, List.lookup_cons])]
  simp [Fields.required, Fields.withDefault, Fields.find?, List.lookup_cons, Value.named?_tree,
    Value.texts?_tree, Value.word32?_tree]

def Query.ordered (q : Query) : Query := { q with filters := q.filters.map Filter.ordered }

theorem Query.decode?_encode {q : Query}
    (h : ∀ f ∈ q.filters, f.value.Exact ∧ f.value.depth ≤ Filter.valueDepth) :
    Query.decode? q.encode.tree = some q.ordered := by
  have haggregators := Value.list?_tree_self Aggregator.decode?_encode q.aggregators
  have hfilters : list? Filter.decode? (Value.array (q.filters.map Filter.encode)).tree =
      some (q.filters.map Filter.ordered) :=
    Value.list?_tree fun f hf => Filter.decode?_encode (h f hf).1 (h f hf).2
  have horders := Value.list?_tree_self Order.decode?_encode q.orders
  rw [Query.decode?, Query.encode, Value.fields?_tree (by rfl) (by decide), Option.bind_eq_bind,
    Option.bind_some,
    Fields.optional_eq_some (o := q.window) (v := (q.window.map Window.encode).getD .null)
      (by simp [Fields.find?, List.lookup_cons]) (fun hw => by rw [hw]; rfl)
      fun w hw => ⟨by rw [hw]; exact Value.noConfusion, by rw [hw]; exact w.decode?_encode⟩,
    Fields.optional_eq_some (o := q.limit) (v := encodeLimit q.limit)
      (by simp [Fields.find?, List.lookup_cons]) (fun hn => by rw [hn]; rfl)
      fun n hn => ⟨by rw [hn]; exact Value.noConfusion, by rw [hn]; exact Value.int64?_tree n⟩]
  simp [Fields.withDefault, Fields.find?, List.lookup_cons, Value.texts?_tree, haggregators, hfilters,
    horders, Query.ordered]

theorem Filter.ordered_eq {f : Filter} (h : f.value.InOrder) : f.ordered = f := by
  rw [ordered, h.ordered_eq]

theorem Query.ordered_eq {q : Query} (h : ∀ f ∈ q.filters, f.value.InOrder) : q.ordered = q := by
  rw [ordered, List.map_congr_left fun f hf => Filter.ordered_eq (h f hf), List.map_id']

namespace Json.Value

theorem exact_strings (l : List String) : Exact (strings l) := by
  refine .array fun v hv => ?_
  obtain ⟨s, -, rfl⟩ := List.mem_map.1 hv
  exact .string s

theorem exact_ofOption (s : Option String) : Exact (ofOption s) := by
  cases s
  · exact .null
  · exact .string _

theorem exact_array {write : α → Value} {l : List α} (h : ∀ a ∈ l, Exact (write a)) :
    Exact (array (l.map write)) := by
  refine .array fun v hv => ?_
  obtain ⟨a, ha, rfl⟩ := List.mem_map.1 hv
  exact h a ha

end Json.Value

theorem Aggregator.exact_encode (a : Aggregator) : a.encode.Exact := by
  refine .object (by simp) ?_
  simp [encodeName, Value.Exact.string, Value.exact_strings]

theorem Order.exact_encode (o : Order) : o.encode.Exact := by
  refine .object (by simp) ?_
  simp [encodeName, Value.Exact.string]

theorem Filter.exact_encode {f : Filter} (h : f.value.Exact) : f.encode.Exact := by
  refine .object (by simp) ?_
  simp [encodeName, Value.Exact.string, h]

theorem Window.exact_encode (w : Window) : w.encode.Exact := by
  have hunit : (Value.ofNat w.unit.toNat).Exact := by
    have hlt := w.unit.toNat_lt
    exact .integer (by omega) (by omega)
  refine .object (by simp) ?_
  simp [encodeName, Value.Exact.string, Value.exact_ofOption, Value.exact_strings, hunit]

theorem Query.exact_encode {q : Query} (h : ∀ f ∈ q.filters, f.value.Exact) : q.encode.Exact := by
  have hwindow : ((q.window.map Window.encode).getD .null).Exact := by
    cases q.window with
    | none => exact .null
    | some w => exact w.exact_encode
  have hlimit : (encodeLimit q.limit).Exact := by
    cases q.limit with
    | none => exact .null
    | some n =>
      have hle := n.le_toInt
      have hlt := n.toInt_lt
      exact .integer hle (by omega)
  refine .object (by simp) ?_
  simp [Value.exact_strings, Value.exact_array fun a _ => Aggregator.exact_encode a,
    Value.exact_array fun f hf => Filter.exact_encode (h f hf),
    Value.exact_array fun o _ => Order.exact_encode o, hwindow, hlimit]

theorem Filter.depth_lt {q : Query} {f : Filter} (hf : f ∈ q.filters) :
    f.value.depth + 3 ≤ q.encode.depth := by
  have hvalue : f.value.depth < f.encode.depth :=
    Value.depth_lt_object (f := ("value", f.value)) (by simp)
  have hfilter : f.encode.depth < (Value.array (q.filters.map Filter.encode)).depth :=
    Value.depth_lt_array (List.mem_map_of_mem hf)
  have hfilters : (Value.array (q.filters.map Filter.encode)).depth < q.encode.depth :=
    Value.depth_lt_object (f := ("dimension_filters", .array (q.filters.map Filter.encode)))
      (by simp)
  omega

/-- A query is read back from its text, with the fields of its filters' values in the order of their
keys, and unchanged when they were in order. Values of filters may hold any integers of 64 bits and
objects without repeated keys, and nesting may take all 127 levels. -/
theorem Query.text_reads_back (q : Query) (hexact : ∀ f ∈ q.filters, f.value.Exact)
    (hdepth : q.encode.depth ≤ 127) :
    ofText? q.text = some q.ordered ∧
      ((∀ f ∈ q.filters, f.value.InOrder) → ofText? q.text = some q) := by
  have hread : ofText? q.text = some q.ordered := by
    rw [ofText?, text, (exact_encode hexact).ofText?_compact, Option.bind_some]
    refine decode?_encode fun f hf => ⟨hexact f hf, ?_⟩
    have hlt := Filter.depth_lt hf
    exact Nat.le_sub_of_add_le (Nat.le_trans hlt hdepth)
  exact ⟨hread, fun horder => by rw [hread, ordered_eq horder]⟩

def extremeQuery : Query where
  groups := ["\x01\x1f\"\\/", "\u00e9\u65e5"]
  aggregators := [{ func := .countDistinct, column := "\n\x7f", args := [""] }]
  filters := [
    { field := "a", op := .isIn, value := .null },
    { field := "b", op := .notIn, value := .array [
        .number (.integer (-2 ^ 63)), .number (.integer (2 ^ 64 - 1)),
        .object [("k", .object []), ("\u00e9", .array [.bool true])]] }]
  window := some { mode := .between, endDate := some "", unit := 4294967295, period := .quarter }
  orders := [{ column := "a", direction := .desc }]
  limit := some Int64.minValue

theorem Query.text_reads_back_extreme :
    (∀ f ∈ extremeQuery.filters, f.value.Exact ∧ f.value.InOrder) ∧
      extremeQuery.encode.depth ≤ 127 ∧ ofText? extremeQuery.text = some extremeQuery := by
  have hlist : (Value.array [.bool true]).Exact ∧ (Value.array [.bool true]).InOrder :=
    ⟨.array (by simp [Value.Exact.bool]), .array (by simp [Value.InOrder.bool])⟩
  have hempty : (Value.object []).Exact ∧ (Value.object []).InOrder :=
    ⟨.object (by simp) (by simp), .object (by simp) (by simp)⟩
  have hobject : (Value.object [("k", .object []), ("\u00e9", .array [.bool true])]).Exact ∧
      (Value.object [("k", .object []), ("\u00e9", .array [.bool true])]).InOrder :=
    ⟨.object (by simp) (by simp [hlist, hempty]),
      .object (List.pairwise_pair.2 (by decide)) (by simp [hlist, hempty])⟩
  have hleast : (Value.number (.integer (-2 ^ 63))).Exact := .integer (by decide) (by decide)
  have hgreatest : (Value.number (.integer (2 ^ 64 - 1))).Exact := .integer (by decide) (by decide)
  have hvalue : ∀ f ∈ extremeQuery.filters, f.value.Exact ∧ f.value.InOrder := by
    refine List.forall_mem_cons.2
      ⟨⟨.null, .null⟩, List.forall_mem_singleton.2 ⟨.array ?_, .array ?_⟩⟩
    · simp only [List.forall_mem_cons, hleast, hgreatest, hobject, true_and]
      simp
    · simp only [List.forall_mem_cons, Value.InOrder.number, hobject, true_and]
      simp
  have hdepth : extremeQuery.encode.depth ≤ 127 := by cbv
  exact ⟨hvalue, hdepth, (text_reads_back extremeQuery (fun f hf => (hvalue f hf).1) hdepth).2
    fun f hf => (hvalue f hf).2⟩

end MetricSql
